import EarbudFirmware.Lib.Transition
import EarbudFirmware.Norflash.Layout

/-!
# Flash service: the logical content of a module

The accepted calls of a module, applied in call order, give its logical content. Runs are executions
of the service that record the accepted operations of one module.

## Main definitions

* `tracedStep` — a step that records the accepted operation
* `logical`, `synchronous` — the content that the recorded operations give
* `Admissible` — an asynchronous call of the module, or any call for another one
* `AddErase`, `AddWrite` — what an accepted call does to the queue
* `KeepsErase` — when an accepted erase is not lost

## Main results

* `traced_invariant` — the induction over runs, in terms of the queue and the flash of the module
-/

namespace EarbudFirmware.Norflash

open NorMemory
open Transition (Along)

variable {pf : Platform}

/-! ### Runs -/

/-- The operation on the flash that a call asks for. -/
def Event.op : Event → Option Op
  | .erase _ addr len _ _ => some (.erase (physAddr addr) len)
  | .write _ addr buffer len _ _ => some (.program (physAddr addr) len buffer)
  | _ => none

/-- A call, recorded when it is accepted and modifies the module `m`. The newest record is first. -/
def tracedStep (pf : Platform) (m : ModuleId) (t : FlashApi × List Op) (e : Event) :
    Option (FlashApi × List Op) :=
  (call pf t.1 e).map fun r =>
    (r.1, if e.target = some m ∧ r.2 = .ok then e.op.toList ++ t.2 else t.2)

/-- The logical content: an erase sets its range to `0xFF`, a write overlays its bytes. -/
def logical (f : Content) (log : List Op) : Content := log.foldr Op.put f

/-- The content after applying the operations one after the other synchronously. -/
def synchronous (f : Content) (log : List Op) : Content := log.foldr Op.apply f

/-- The call is asynchronous. -/
def Event.Async : Event → Prop
  | .erase _ _ _ async _ => async = true
  | .write _ _ _ _ async _ => async = true
  | _ => True

/-- A write goes to bytes that are erased in the content `f`. -/
def Event.OnErased (f : Content) : Event → Prop
  | .write _ addr _ len _ _ => ∀ x, InRange (physAddr addr) len x → f x = 0xFF
  | _ => True

/-- The queue and the flash of the module, as the guards of its calls see them. -/
def Event.Guarded (ge gw : List OperaInfo → Content → Nat → Nat → Prop) (q : List OperaInfo)
    (f : Content) : Event → Prop
  | .erase _ addr len _ _ => ge q f addr len
  | .write _ addr _ len _ _ => gw q f addr len
  | _ => True

/-- The calls that runs are made of: calls keep to the memory map, the HAL keeps its promise, and
the calls of the module are asynchronous; the accepted ones write to erased bytes and meet the
guards `ge` (erases) and `gw` (writes). -/
structure Admissible (lay : Layout pf) (m : ModuleId) (r : Region pf) (f : Content)
    (ge gw : List OperaInfo → Content → Nat → Nat → Prop) (t : FlashApi × List Op) (e : Event) :
    Prop where
  hal : HalOk t.1 e
  conforms : e.Conforms lay
  async : e.target = some m → e.Async
  onErased : e.target = some m → ∀ s, call pf t.1 e = some (s, .ok) → e.OnErased (logical f t.2)
  guarded : e.target = some m → ∀ s, call pf t.1 e = some (s, .ok) →
    e.Guarded ge gw (t.1.modInfo m).operaInfo (t.1.view r)

/-- A run of the service from its initialisation on. -/
def Run (lay : Layout pf) (m : ModuleId) (r : Region pf) (flash : FlashId → Content)
    (ge gw : List OperaInfo → Content → Nat → Nat → Prop) (es : List Event)
    (t : FlashApi × List Op) : Prop :=
  Along (tracedStep pf m) (Admissible lay m r (flash r.devId) ge gw) (init pf flash, []) es ∧
    es.foldlM (tracedStep pf m) (init pf flash, []) = some t

/-- A step records at most the operation of its call. -/
theorem tracedStep_log {m : ModuleId} {t t' : FlashApi × List Op} {e : Event}
    (h : tracedStep pf m t e = some t') : t'.2 = t.2 ∨ t'.2 = e.op.toList ++ t.2 := by
  obtain ⟨⟨s, ret⟩, -, rfl⟩ := Option.map_eq_some_iff.1 h
  dsimp only
  split_ifs
  · exact .inr rfl
  · exact .inl rfl

/-- Calls that do not modify the module are admissible. -/
theorem Admissible.of_target_ne {lay : Layout pf} {m : ModuleId} {r : Region pf} {f : Content}
    {ge gw : List OperaInfo → Content → Nat → Nat → Prop} {t : FlashApi × List Op} {e : Event}
    (hal : HalOk t.1 e) (conforms : e.Conforms lay) (ht : e.target ≠ some m) :
    Admissible lay m r f ge gw t e :=
  ⟨hal, conforms, fun h => absurd h ht, fun h => absurd h ht, fun h => absurd h ht⟩

/-! ### What an accepted call does to the queue -/

/-- An accepted erase: a locked erase absorbs it, or a node is added. -/
inductive AddErase (q : List OperaInfo) (addr len : Nat) : List OperaInfo → Prop where
  | absorbed (h : ∃ t ∈ q, t.absorbs addr len = true) :
      AddErase q addr len (q.filter (·.survives addr len))
  | added (slot : Nat) (h : ∀ t ∈ q, t.absorbs addr len = false) :
      AddErase q addr len ({ slot, addr, len, lock := false, opera := .erasing } ::
        q.filter (·.survives addr len))

/-- An accepted write: it is merged into a write node, or a node is added whose buffer starts from
erased bytes or from the flash. -/
inductive AddWrite (secLen : Nat) (q : List OperaInfo) (f : Content) (addr len : Nat)
    (buffer : Nat → UInt8) : List OperaInfo → Prop where
  | merged {l r : List OperaInfo} {n : OperaInfo} (hq : q = l ++ n :: r)
      (hstart : n.addr = secStart secLen addr) (hwrite : n.isErasing = false)
      (hlock : n.lock = false) (hl : ∀ m ∈ l, m.stopsWrite (secStart secLen addr) = false) :
      AddWrite secLen q f addr len buffer
        (l ++ n.widen (addr - secStart secLen addr) len buffer :: r)
  | fromErase {l r : List OperaInfo} {n : OperaInfo} (slot b : Nat) (hq : q = l ++ n :: r)
      (hstart : n.addr = secStart secLen addr) (herase : n.isErasing = true)
      (hl : ∀ m ∈ l, m.stopsWrite (secStart secLen addr) = false) :
      AddWrite secLen q f addr len buffer
        ({ slot, addr := secStart secLen addr, len := secLen, lock := false,
           opera := .writting (addr - secStart secLen addr) len
             ⟨b, overlay (addr - secStart secLen addr) len buffer fun _ => 0xFF⟩ } :: q)
  | fromFlash (slot b : Nat) (hq : ∀ m ∈ q, m.stopsWrite (secStart secLen addr) = false) :
      AddWrite secLen q f addr len buffer
        ({ slot, addr := secStart secLen addr, len := secLen, lock := false,
           opera := .writting (addr - secStart secLen addr) len
             ⟨b, overlay (addr - secStart secLen addr) len buffer
               fun i => f (secStart secLen addr + i)⟩ } :: q)

/-- The arguments of an erase. -/
structure Area.EraseArgs (A : Area) (addr len : Nat) : Prop where
  dvd : A.secLen ∣ addr
  unit : len = A.secLen ∨ len = A.blockLen
  lo : A.lo ≤ addr
  hi : addr + len ≤ A.hi

/-- The arguments of a write. -/
structure Area.WriteArgs (A : Area) (addr len : Nat) : Prop where
  pos : 0 < len
  sector : addr - secStart A.secLen addr + len ≤ A.secLen
  lo : A.lo ≤ addr
  hi : addr + len ≤ A.hi

theorem Area.EraseArgs.dvd_len {A : Area} {addr len : Nat} (h : A.EraseArgs addr len) :
    A.secLen ∣ len := by
  rcases h.unit with h | h
  · exact h ▸ dvd_rfl
  · exact h ▸ A.dvd_blockLen

theorem Area.EraseArgs.len_pos {A : Area} {addr len : Nat} (h : A.EraseArgs addr len) :
    0 < len := by
  rcases h.unit with h | h
  · exact h ▸ A.secLen_pos
  · exact h ▸ A.blockLen_pos

/-- A write stays in its sector. -/
theorem Area.WriteArgs.secStart_eq {A : Area} {addr len x : Nat} (h : A.WriteArgs addr len)
    (hx : InRange addr len x) : secStart A.secLen x = secStart A.secLen addr := by
  have hle := secStart_le A.secLen addr
  have hend := h.sector
  obtain ⟨hlo, hhi⟩ := hx
  exact Norflash.secStart_eq A.secLen_pos (dvd_secStart _ _) (by omega) (by omega)

/-- No byte of an erase's range is lost: no locked erase absorbs it, or every byte is covered by a
remaining erase or erased already. -/
def KeepsErase (q : List OperaInfo) (f : Content) (addr len : Nat) : Prop :=
  (∀ t ∈ q, t.absorbs addr len = false) ∨
    ∀ x, InRange addr len x →
      (∃ n ∈ q.filter (·.survives addr len), n.isErasing = true ∧ n.op.Covers x) ∨ f x = 0xFF

/-- The queue stands for an erased range after an accepted erase exactly when no byte is lost. -/
theorem AddErase.settled_iff {A : Area} {q q' : List OperaInfo} {f : Content} {addr len : Nat}
    (h : AddErase q addr len q') (hargs : A.EraseArgs addr len) (hq : ∀ n ∈ q, n.Placed A)
    (hlock : UnlockedInit q) :
    (∀ x, InRange addr len x → settled q' f x = 0xFF) ↔ KeepsErase q f addr len := by
  cases h with
  | absorbed habs =>
    have hno : ¬∀ t ∈ q, t.absorbs addr len = false := fun hno => by
      obtain ⟨t, ht, h⟩ := habs
      simp [hno t ht] at h
    rw [KeepsErase, or_iff_right hno]
    exact forall₂_congr fun x hx =>
      settled_absorbed_iff hq hlock hargs.dvd hargs.dvd_len hx habs
  | added slot hno => exact iff_of_true (fun x hx => if_pos hx) (.inl hno)

section Calls

variable {lay : Layout pf} {m : ModuleId} {r : Region pf} {s s' : FlashApi}

/-- An accepted asynchronous erase, seen from its module. -/
theorem Sound.erase_view (hs : Sound lay s) (hr : lay.region m = some r) {addr len : Nat}
    {polls : List Bool} (haddr : addr / addrSpan = lay.window m)
    (h : norflashApiErase pf s m addr len true polls = some (s', .ok)) :
    (lay.area m r).EraseArgs addr len ∧ s'.flash = s.flash ∧
      AddErase (s.modInfo m).operaInfo addr len (s'.modInfo m).operaInfo := by
  rcases norflashApiErase_cases h with ⟨hchk, -⟩ | ⟨hchk, ⟨-, p, q, ok, hadd, rfl, hret⟩ |
    ⟨hasync, -⟩⟩
  · unfold checkErase at hchk
    cases hi : s.isInited <;> cases hreg : (s.modInfo m).isRegistered <;>
      simp [hi, hreg, bind, Except.bind, pure, Except.pure, throw, throwThe,
        MonadExceptOf.throw] at hchk
    split_ifs at hchk <;> cases hchk
  · obtain ⟨r', hr', hmat, hdvd, hlen, hlo, hhi⟩ := hs.erase_args haddr hchk
    obtain rfl : r = r' := Option.some.inj (hr.symm.trans hr')
    refine ⟨⟨hdvd, hlen, hlo, hhi⟩, rfl, ?_⟩
    have hown : ∀ n ∈ (s.modInfo m).operaInfo, n.slot ∈ (s.pools (s.modInfo m).devId).nodes :=
      fun n hn => hs.wf.nodes.used m n.slot (List.mem_filterMap.2 ⟨n, hn, rfl⟩)
    simp only [FlashApi.setModule, Function.update_self]
    rcases eOperaAdd_cases (hs.wf.unlockedInit m) hown hadd with
      ⟨-, habs, -, rfl⟩ | ⟨-, hno, slot, _, -, -, rfl⟩ | ⟨rfl, -⟩
    · exact .absorbed habs
    · exact .added slot hno
    · cases hret
  · cases hasync

/-- A rejected asynchronous call changes nothing in the queue. -/
theorem Sound.erase_rejected (hs : Sound lay s) {addr len : Nat} {polls : List Bool} {ret : ApiRet}
    (hne : ret ≠ .ok) (h : norflashApiErase pf s m addr len true polls = some (s', ret)) :
    s'.flash = s.flash ∧ (s'.modInfo m).operaInfo = (s.modInfo m).operaInfo := by
  rcases norflashApiErase_cases h with ⟨-, rfl⟩ | ⟨hchk, ⟨-, p, q, ok, hadd, rfl, hret⟩ |
    ⟨hasync, -⟩⟩
  · exact ⟨rfl, rfl⟩
  · have hown : ∀ n ∈ (s.modInfo m).operaInfo, n.slot ∈ (s.pools (s.modInfo m).devId).nodes :=
      fun n hn => hs.wf.nodes.used m n.slot (List.mem_filterMap.2 ⟨n, hn, rfl⟩)
    rcases eOperaAdd_cases (hs.wf.unlockedInit m) hown hadd with
      ⟨rfl, -⟩ | ⟨rfl, -⟩ | ⟨-, -, -, rfl⟩
    · exact absurd hret hne
    · exact absurd hret hne
    · exact ⟨rfl, by simp [FlashApi.setModule]⟩
  · cases hasync

/-- An accepted asynchronous write, seen from its module. -/
theorem Sound.write_view (hs : Sound lay s) (hr : lay.region m = some r) {addr len : Nat}
    {buffer : Nat → UInt8} {polls : List Bool} (haddr : addr / addrSpan = lay.window m)
    (hlen : len < 2 ^ 31)
    (h : norflashApiWrite pf s m addr buffer len true polls = some (s', .ok)) :
    (lay.area m r).WriteArgs addr len ∧ s'.flash = s.flash ∧
      AddWrite (lay.area m r).secLen (s.modInfo m).operaInfo (s.view r) addr len buffer
        (s'.modInfo m).operaInfo := by
  rcases norflashApiWrite_cases h with ⟨hchk, -⟩ | ⟨hchk, ⟨-, p, q, ok, hadd, rfl, hret⟩ |
    ⟨hasync, -⟩⟩
  · unfold checkAccess at hchk
    cases hi : s.isInited <;> cases hreg : (s.modInfo m).isRegistered <;>
      simp [hi, hreg, bind, Except.bind, pure, Except.pure, throw, throwThe,
        MonadExceptOf.throw] at hchk
    split_ifs at hchk <;> cases hchk
  · obtain ⟨r', hr', hmat, hpos, hend, hlo, hhi⟩ := hs.write_args haddr hlen hchk
    obtain rfl : r = r' := Option.some.inj (hr.symm.trans hr')
    refine ⟨⟨hpos, hend, hlo, hhi⟩, rfl, ?_⟩
    rw [hmat.modSectorLen, hmat.devId] at hadd
    simp only [FlashApi.setModule, Function.update_self]
    rcases wOperaAdd_cases hadd with ⟨-, -, l, n, r', hq, hstart, hw, hlock, hl, rfl⟩ |
      ⟨-, old, slot, _, b, _, ⟨l, n, r', hq, hstart, he, hl, rfl⟩ | ⟨hq, rfl⟩, -, -, -, rfl⟩ |
      ⟨rfl, -⟩
    · exact .merged hq hstart hw hlock hl
    · exact .fromErase slot b hq hstart he hl
    · exact .fromFlash slot b hq
    · cases hret
  · cases hasync

theorem Sound.write_rejected {addr len : Nat} {buffer : Nat → UInt8} {polls : List Bool}
    {ret : ApiRet} (hne : ret ≠ .ok)
    (h : norflashApiWrite pf s m addr buffer len true polls = some (s', ret)) :
    s'.flash = s.flash ∧ (s'.modInfo m).operaInfo = (s.modInfo m).operaInfo := by
  rcases norflashApiWrite_cases h with ⟨-, rfl⟩ | ⟨hchk, ⟨-, p, q, ok, hadd, rfl, hret⟩ |
    ⟨hasync, -⟩⟩
  · exact ⟨rfl, rfl⟩
  · rcases wOperaAdd_cases hadd with ⟨rfl, -⟩ | ⟨rfl, -⟩ | ⟨-, -, rfl⟩
    · exact absurd hret hne
    · exact absurd hret hne
    · exact ⟨rfl, by simp [FlashApi.setModule]⟩
  · cases hasync

/-! ### The induction over runs -/

/-- An accepted call does to the logical content, in the addresses of the module, what it does to
the cells. -/
theorem logical_put {op : Op} {a n : Nat} {f : Content} {log : List Op} {x : Nat}
    (hn : 0 < n) (hlo : (lay.area m r).lo ≤ a) (hhi : a + n ≤ (lay.area m r).hi)
    (hx : (lay.area m r).Mem x) :
    (op = .erase (physAddr a) n → logical f (op :: log) (physAddr x) =
        if InRange a n x then 0xFF else logical f log (physAddr x)) ∧
      ∀ d, op = .program (physAddr a) n d → logical f (op :: log) (physAddr x) =
        if InRange a n x then d (x - a) else logical f log (physAddr x) := by
  obtain ⟨hiff, hsub⟩ := Layout.inRange_physAddr hn hlo hhi hx
  constructor
  · rintro rfl
    simp [logical, Op.put, Op.byteAt, hiff]
  · rintro d rfl
    simp [logical, Op.put, overlay, hiff, hsub]

/-- A property of the queue, the flash and the logical content of a module that survives the
execution of the oldest node and the accepted calls of the module holds in all runs. -/
theorem traced_invariant (hr : lay.region m = some r) {flash : FlashId → Content}
    {ge gw : List OperaInfo → Content → Nat → Nat → Prop}
    {I : List OperaInfo → Content → Content → Prop} (hinit : ∀ f, I [] f f)
    (hquiet : ∀ q f L q' g, I q f L → UnlockedInit q → QueueStep (lay.area m r) q f q' g →
      I q' g L)
    (herase : ∀ q f L L' addr len q', I q f L → (∀ n ∈ q, n.Placed (lay.area m r)) →
      UnlockedInit q → (lay.area m r).EraseArgs addr len → ge q f addr len →
      AddErase q addr len q' →
      (∀ x, (lay.area m r).Mem x → L' x = if InRange addr len x then 0xFF else L x) → I q' f L')
    (hwrite : ∀ q f L L' addr len buffer q', I q f L → (∀ n ∈ q, n.Placed (lay.area m r)) →
      UnlockedInit q → (lay.area m r).WriteArgs addr len → gw q f addr len →
      (∀ x, InRange addr len x → L x = 0xFF) →
      AddWrite (lay.area m r).secLen q f addr len buffer q' →
      (∀ x, (lay.area m r).Mem x → L' x = if InRange addr len x then buffer (x - addr) else L x) →
      I q' f L')
    {es : List Event} {t : FlashApi × List Op} (hrun : Run lay m r flash ge gw es t) :
    Sound lay t.1 ∧ I (t.1.modInfo m).operaInfo (t.1.view r)
      fun x => logical (flash r.devId) t.2 (physAddr x) := by
  refine hrun.1.preserves (I := fun t => Sound lay t.1 ∧ I (t.1.modInfo m).operaInfo (t.1.view r)
    fun x => logical (flash r.devId) t.2 (physAddr x)) ?_ hrun.2 ⟨sound_init lay flash, hinit _⟩
  rintro ⟨s, log⟩ e t' ⟨hs, hi⟩ hadm hstep
  obtain ⟨⟨s', ret⟩, hcall, rfl⟩ := Option.map_eq_some_iff.1 hstep
  have hs' : Sound lay s' := hs.call hadm.conforms hcall
  refine ⟨hs', ?_⟩
  by_cases ht : e.target = some m
  · have hasync := hadm.async ht
    have haccept := hadm.onErased ht
    have hguard := hadm.guarded ht
    have hconf := hadm.conforms
    cases e with
    | erase m' addr len async polls =>
      obtain rfl : m' = m := Option.some.inj ht
      obtain rfl : async = true := hasync
      by_cases hret : ret = .ok
      · subst hret
        obtain ⟨hargs, hflash, hadd⟩ := hs.erase_view hr hconf hcall
        simp only [Event.target, and_self, if_true]
        have hview : s'.view r = s.view r := FlashApi.view_congr hflash r
        rw [hview]
        exact herase _ _ _ _ addr len _ hi (hs.placed m' r hr) (hs.wf.unlockedInit m') hargs
          (hguard s' hcall) hadd fun x hx =>
            (logical_put hargs.len_pos hargs.lo hargs.hi hx).1 rfl
      · obtain ⟨hflash, hqueue⟩ := hs.erase_rejected hret hcall
        have hview : s'.view r = s.view r := FlashApi.view_congr hflash r
        simp only [hret, and_false, if_false, hqueue, hview]
        exact hi
    | write m' addr buffer len async polls =>
      obtain rfl : m' = m := Option.some.inj ht
      obtain rfl : async = true := hasync
      by_cases hret : ret = .ok
      · subst hret
        obtain ⟨hargs, hflash, hadd⟩ := hs.write_view hr hconf.1 hconf.2 hcall
        simp only [Event.target, and_self, if_true]
        have hview : s'.view r = s.view r := FlashApi.view_congr hflash r
        rw [hview]
        refine hwrite _ _ _ _ addr len buffer _ hi (hs.placed m' r hr) (hs.wf.unlockedInit m')
          hargs (hguard s' hcall) (fun x hx => ?_) hadd fun x hx =>
            (logical_put hargs.pos hargs.lo hargs.hi hx).2 buffer rfl
        have hx' : (lay.area m' r).Mem x := ⟨by have := hargs.lo; have := hx.1; omega,
          by have := hargs.hi; have := hx.2; omega⟩
        exact haccept s' hcall _
          ((Layout.inRange_physAddr hargs.pos hargs.lo hargs.hi hx').1.2 hx)
      · obtain ⟨hflash, hqueue⟩ := Sound.write_rejected hret hcall
        have hview : s'.view r = s.view r := FlashApi.view_congr hflash r
        simp only [hret, and_false, if_false, hqueue, hview]
        exact hi
    | _ => cases ht
  · simp only [ht, false_and, if_false]
    exact hs.call_view (I := fun q f => I q f _) hr (fun q f q' g => hquiet q f _ q' g)
      hadm.conforms hadm.hal ht hcall hi

end Calls

end EarbudFirmware.Norflash
