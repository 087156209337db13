import EarbudFirmware.Lib.Tiling
import EarbudFirmware.Norflash.Layout
import EarbudFirmware.Norflash.Rejection

/-!
# Flash service: erasing a range

`app_flash_erase` cuts a range into sectors, blocks and sectors, and calls `norflash_api_erase` for
each piece until it is accepted: while the queue is full, the pending erase operations are flushed.
The sectors in front are to lead up to a block boundary, but their length is the distance from the
boundary before, not to the one behind.

## Main definitions

* `flushPendingOp`, `retryCall`, `issueCalls` — the loops around a call of the interface
* `eraseLens`, `appFlashErase` — the pieces of a range, and the function of the source
* `ErasesExactly` — the calls cover the range once, and blocks are erased at block boundaries

## Main results

* `issueCalls_spec` — valid calls are accepted one after the other
* `appFlashErase_exact_iff` — the ranges that are erased exactly
-/

namespace EarbudFirmware.Norflash

open NorMemory (Content)
open Relation (ReflTransGen)
open Tiling

variable {pf : Platform} {s s' : FlashApi} {m : ModuleId} {lay : Layout pf} {r : Region pf}

/-! ### The loops around a call -/

/-- How a function of `app_flash_api.cpp` ends early: by its own assertion, by one of the service,
or not yet, when it asks for more turns of the flush loop than it is given. -/
inductive AppErr where
  | assertion | halted | pending
  deriving DecidableEq

/-- A turn of the flush loop: the answers of a flush, and the calls of other threads before the next
turn. -/
structure FlushTurn where
  polls : List Bool
  ans : HalAnswer
  others : List Event

/-- `app_flash_flush_pending_op` for a module and a type of operations, which `count` counts. -/
def flushPendingOp (pf : Platform) (m : ModuleId) (count : ModuleInfo → Nat) :
    List FlushTurn → FlashApi → Except AppErr (FlashApi × List FlushTurn)
  | [], _ => .error .pending
  | turn :: turns, s =>
    match norflashApiFlush pf s turn.polls turn.ans with
    | none => .error .halted
    | some (s, _) =>
      if count (s.modInfo m) = 0 then .ok (s, turns)
      else match turn.others.foldlM (step pf) s with
        | none => .error .halted
        | some s => flushPendingOp pf m count turns s

/-- A call is made until it is accepted. Every call that is not accepted takes a turn, so that more
calls than turns are not made. -/
def retryCall (pf : Platform) (m : ModuleId) (count : ModuleInfo → Nat) (e : Event) :
    Nat → List FlushTurn → FlashApi → Except AppErr (FlashApi × List FlushTurn)
  | 0, _, _ => .error .pending
  | fuel + 1, turns, s =>
    match call pf s e with
    | none => .error .halted
    | some (s, .ok) => .ok (s, turns)
    | some (s, .bufferFull) =>
      match flushPendingOp pf m count turns s with
      | .error err => .error err
      | .ok (s, turns) => retryCall pf m count e fuel turns s
    | some _ => .error .assertion

/-- One call for each piece, in order; the result starts with the pieces whose call was accepted. -/
def issueCalls (pf : Platform) (m : ModuleId) (count : ModuleInfo → Nat)
    (event : Nat × Nat → Event) : List (Nat × Nat) → List FlushTurn → FlashApi →
      List (Nat × Nat) × Except AppErr (FlashApi × List FlushTurn)
  | [], turns, s => ([], .ok (s, turns))
  | c :: cs, turns, s =>
    match retryCall pf m count (event c) (turns.length + 1) turns s with
    | .error err => ([], .error err)
    | .ok (s, turns) =>
      let rest := issueCalls pf m count event cs turns s
      (c :: rest.1, rest.2)

/-! ### Erasing -/

/-- The lengths of the calls of `app_flash_erase`: sectors, blocks, and sectors again. -/
def eraseLens (bSize sSize flashOffset len : Nat) : List Nat :=
  let sLen :=
    if (bSize - 1) &&& flashOffset < len then (bSize - 1) &&& flashOffset else len
  let bLen := (len - sLen) / bSize * bSize
  List.replicate (sLen / sSize) sSize ++ List.replicate (bLen / bSize) bSize ++
    List.replicate ((len - sLen - bLen) / sSize) sSize

/-- `app_flash_erase`: the accepted calls of `norflash_api_erase`, with what is left of the turns.
The sizes are `flash_block_size` and `flash_sector_size` of the module's device. -/
def appFlashErase (pf : Platform) (blockSize : FlashId → Nat) (s : FlashApi) (m : ModuleId)
    (flashOffset len : Nat) (turns : List FlushTurn) :
    List (Nat × Nat) × Except AppErr (FlashApi × List FlushTurn) :=
  let mi := s.modInfo m
  let registered := s.isInited && mi.isRegistered
  let d := if registered then mi.devId else .id0
  let sSize := pf.sectorSize d
  if flashOffset &&& (sSize - 1) ≠ 0 ∨ len &&& (sSize - 1) ≠ 0 then ([], .error .assertion)
  else if registered then
    issueCalls pf m ModuleInfo.getECount (fun c => .erase m c.1 c.2 true [])
      (tile (mi.modBaseAddr + flashOffset) (eraseLens (blockSize d) sSize flashOffset len)) turns s
  else ([], .error .assertion)

/-- The calls cover the `len` bytes from `start` on once, and a block is erased at a multiple of its
length. -/
structure ErasesExactly (bSize : Nat) (calls : List (Nat × Nat)) (start len : Nat) : Prop where
  covers : CoversOnce calls start len
  aligned : ∀ c ∈ calls, c.2 = bSize → bSize ∣ c.1

/-- What the chip erases for a call: the sector or block that the address lies in. -/
def chipErases (c : Nat × Nat) (x : Nat) : Prop := c.1 / c.2 * c.2 ≤ x ∧ x < c.1 / c.2 * c.2 + c.2

/-! ### The pieces -/

/-- Masking with a power of two less one takes the remainder. -/
theorem mask_eq_mod {n : Nat} (hn : n.isPowerOfTwo) (x : Nat) : (n - 1) &&& x = x % n := by
  obtain ⟨k, rfl⟩ := hn
  rw [Nat.and_comm, Nat.and_two_pow_sub_one_eq_mod]

section Pieces

variable {b n flashOffset len start : Nat}

/-- The length of the sectors in front. -/
def headLen (b flashOffset len : Nat) : Nat :=
  if flashOffset % b < len then flashOffset % b else len

theorem eraseLens_eq (hb : b.isPowerOfTwo) :
    eraseLens b n flashOffset len =
      List.replicate (headLen b flashOffset len / n) n ++
        List.replicate ((len - headLen b flashOffset len) / b) b ++
          List.replicate ((len - headLen b flashOffset len) % b / n) n := by
  have hpos : 0 < b := Nat.pos_of_isPowerOfTwo hb
  have htail : ∀ x, x - x / b * b = x % b := fun x => by
    have := Nat.div_add_mod' x b
    omega
  simp only [eraseLens, mask_eq_mod hb, headLen, Nat.mul_div_cancel _ hpos, htail]

theorem dvd_headLen (hn : n ∣ b) (hoffset : n ∣ flashOffset) (hlen : n ∣ len) :
    n ∣ headLen b flashOffset len := by
  rw [headLen]
  split
  · exact (Nat.dvd_mod_iff hn).2 hoffset
  · exact hlen

theorem headLen_le : headLen b flashOffset len ≤ len := by
  rw [headLen]
  split <;> omega

/-- The pieces have the length of the range. -/
theorem eraseLens_sum (hb : b.isPowerOfTwo) (hn : n ∣ b) (hoffset : n ∣ flashOffset)
    (hlen : n ∣ len) : (eraseLens b n flashOffset len).sum = len := by
  have hhead := dvd_headLen hn hoffset hlen
  have htail : n ∣ (len - headLen b flashOffset len) % b :=
    (Nat.dvd_mod_iff hn).2 (Nat.dvd_sub hlen hhead)
  have hle : headLen b flashOffset len ≤ len := headLen_le
  have hdiv := Nat.div_add_mod' (len - headLen b flashOffset len) b
  simp only [eraseLens_eq hb, List.sum_append, List.sum_replicate_nat,
    Nat.div_mul_cancel hhead, Nat.div_mul_cancel htail]
  omega

/-- A piece is a sector that starts at a multiple of its length, or one of the blocks. -/
theorem mem_erase_tile (hb : b.isPowerOfTwo) (hn : n ∣ b) (hoffset : n ∣ flashOffset)
    (hlen : n ∣ len) (hstart : n ∣ start) {c : Nat × Nat}
    (hc : c ∈ tile start (eraseLens b n flashOffset len)) :
    n ∣ c.1 ∧ (c.2 = n ∨ ∃ i < (len - headLen b flashOffset len) / b,
      c = (start + headLen b flashOffset len + i * b, b)) := by
  have hhead := dvd_headLen hn hoffset hlen
  rw [eraseLens_eq hb, tile_append, tile_append] at hc
  simp only [List.sum_append, List.sum_replicate_nat, Nat.div_mul_cancel hhead,
    List.mem_append, mem_tile_replicate] at hc
  obtain (⟨i, -, rfl⟩ | ⟨i, hi, rfl⟩) | ⟨i, -, rfl⟩ := hc
  · exact ⟨Nat.dvd_add hstart (Nat.dvd_mul_left n i), .inl rfl⟩
  · exact ⟨Nat.dvd_add (Nat.dvd_add hstart hhead) (Nat.dvd_trans hn (Nat.dvd_mul_left b i)),
      .inr ⟨i, hi, rfl⟩⟩
  · have hfront := Nat.dvd_add hhead (Nat.dvd_trans hn
      (Nat.dvd_mul_left b ((len - headLen b flashOffset len) / b)))
    exact ⟨Nat.dvd_add (Nat.dvd_add hstart hfront) (Nat.dvd_mul_left n i), .inl rfl⟩

/-- The first block follows the sectors in front. -/
theorem first_block_mem (hb : b.isPowerOfTwo) (hn : n ∣ b) (hoffset : n ∣ flashOffset)
    (hlen : n ∣ len) (hblock : 0 < (len - headLen b flashOffset len) / b) :
    (start + headLen b flashOffset len, b) ∈ tile start (eraseLens b n flashOffset len) := by
  have hhead := dvd_headLen hn hoffset hlen
  rw [eraseLens_eq hb, tile_append, tile_append]
  simp only [List.sum_replicate_nat, Nat.div_mul_cancel hhead, List.mem_append,
    mem_tile_replicate]
  exact .inl (.inr ⟨0, hblock, by rw [Nat.zero_mul, Nat.add_zero]⟩)

/-- Blocks start at twice the distance of the offset from the boundary before it. -/
def BlocksAligned (b flashOffset len : Nat) : Prop :=
  flashOffset % b = 0 ∨ 2 * (flashOffset % b) = b ∨ len < flashOffset % b + b

instance (b flashOffset len : Nat) : Decidable (BlocksAligned b flashOffset len) :=
  inferInstanceAs (Decidable (_ ∨ _ ∨ _))

/-- A block that is erased starts at a multiple of its length when the offset does, or lies in the
middle of a block. -/
theorem dvd_block_start {base i : Nat} (hbase : b ∣ base) (h : BlocksAligned b flashOffset len)
    (hi : i < (len - headLen b flashOffset len) / b) :
    b ∣ base + flashOffset + headLen b flashOffset len + i * b := by
  have hmul : b ≤ len - headLen b flashOffset len := by
    by_contra hlt
    rw [Nat.div_eq_of_lt (by omega)] at hi
    exact Nat.not_lt_zero i hi
  have hpos : 0 < b := Nat.pos_of_ne_zero fun h0 => by simp [h0] at hi
  have hhead : headLen b flashOffset len = flashOffset % b := by
    rw [headLen] at hmul ⊢
    split at hmul <;> [exact if_pos ‹_›; omega]
  have hdiv := Nat.div_add_mod flashOffset b
  have hdvd : b ∣ flashOffset + flashOffset % b := by
    rcases h with h | h | h
    · exact ⟨flashOffset / b, by omega⟩
    · exact ⟨flashOffset / b + 1, by rw [Nat.mul_add, Nat.mul_one]; omega⟩
    · omega
  rw [hhead, Nat.add_assoc base]
  exact Nat.dvd_add (Nat.dvd_add hbase hdvd) (Nat.dvd_mul_left b i)

/-- When a block is erased after a head of another length than zero and half a block, it starts
inside of a block. -/
theorem blocksAligned_of_dvd {base : Nat} (hpos : 0 < b) (hbase : b ∣ base)
    (h : 0 < (len - headLen b flashOffset len) / b →
      b ∣ base + flashOffset + headLen b flashOffset len) : BlocksAligned b flashOffset len := by
  have hmod := Nat.mod_lt flashOffset hpos
  by_cases hshort : len < flashOffset % b + b
  · exact .inr (.inr hshort)
  have hhead : headLen b flashOffset len = flashOffset % b := if_pos (by omega)
  rw [hhead, Nat.add_assoc, Nat.dvd_add_right hbase] at h
  have hdvd := h (Nat.div_pos (by omega) hpos)
  have hdiv := Nat.div_add_mod flashOffset b
  rw [show flashOffset + flashOffset % b = b * (flashOffset / b) + 2 * (flashOffset % b) by omega,
    Nat.dvd_add_right (Nat.dvd_mul_right b _)] at hdvd
  obtain ⟨k, hk⟩ := hdvd
  match k with
  | 0 => exact .inl (by omega)
  | 1 => exact .inr (.inl (by omega))
  | k + 2 =>
    have : b * (k + 2) = b * k + 2 * b := by rw [Nat.mul_add, Nat.mul_comm b 2]
    omega

/-- The pieces cover the range, and are aligned exactly when its blocks are. -/
theorem erasesExactly_iff {base : Nat} (hb : b.isPowerOfTwo) (hn : n ∣ b)
    (hbase : b ∣ base) (hoffset : n ∣ flashOffset) (hlen : n ∣ len) :
    ErasesExactly b (tile (base + flashOffset) (eraseLens b n flashOffset len))
      (base + flashOffset) len ↔ BlocksAligned b flashOffset len := by
  constructor
  · intro h
    refine blocksAligned_of_dvd (Nat.pos_of_isPowerOfTwo hb) hbase fun hblock => ?_
    exact h.aligned _ (first_block_mem hb hn hoffset hlen hblock) rfl
  · intro h
    refine ⟨?_, fun c hc hlenc => ?_⟩
    · have hcovers := coversOnce_tile (base + flashOffset) (eraseLens b n flashOffset len)
      rwa [eraseLens_sum hb hn hoffset hlen] at hcovers
    · have hstart := Nat.dvd_add (Nat.dvd_trans hn hbase) hoffset
      obtain ⟨hdvd, hsector | ⟨i, hi, rfl⟩⟩ := mem_erase_tile hb hn hoffset hlen hstart hc
      · -- a sector has the length of a block only when the two are the same
        rwa [← hlenc, hsector]
      · exact dvd_block_start hbase h hi

/-- Where the calls are aligned, the chip erases the bytes of the range and no others. -/
theorem ErasesExactly.chipErases_iff {calls : List (Nat × Nat)}
    (h : ErasesExactly b calls start len) (hn : ∀ c ∈ calls, c.2 = b ∨ c.2 ∣ c.1) (x : Nat) :
    (∃ c ∈ calls, chipErases c x) ↔ start ≤ x ∧ x < start + len := by
  have hchip : ∀ c ∈ calls, (chipErases c x ↔ c.1 ≤ x ∧ x < c.1 + c.2) := fun c hc => by
    have hdvd : c.2 ∣ c.1 := (hn c hc).elim (fun hlen => hlen ▸ h.aligned c hc hlen) id
    rw [chipErases, Nat.div_mul_cancel hdvd]
  have hcover := h.covers x
  rw [hits] at hcover
  constructor
  · rintro ⟨c, hc, hx⟩
    by_contra hout
    rw [if_neg hout, List.countP_eq_zero] at hcover
    exact hcover c hc (decide_eq_true ((hchip c hc).1 hx))
  · intro hin
    rw [if_pos hin] at hcover
    obtain ⟨c, hc, hx⟩ := List.countP_pos_iff.1 (hcover ▸ Nat.one_pos)
    exact ⟨c, hc, (hchip c hc).2 (of_decide_eq_true hx)⟩

end Pieces

/-! ### Modules that stay registered -/

theorem Internal.isRegistered {P : NorMemory.Op → Content → Content → Prop} (h : Internal P s s')
    (m : ModuleId) : (s'.modInfo m).isRegistered = (s.modInfo m).isRegistered := by
  cases h with
  | control i c b hbusy hreg => rfl
  | @complete m' q t hq hfree k =>
    by_cases hm : m = m'
    · subst hm
      simp [FlashApi.completeTail]
    · simp [FlashApi.completeTail, Function.update_of_ne hm]
  | @suspend m' q t hq hcur cells hcells k =>
    by_cases hm : m = m'
    · subst hm
      simp [FlashApi.suspendTail]
    · simp [FlashApi.suspendTail, Function.update_of_ne hm]

theorem internals_isRegistered {P : NorMemory.Op → Content → Content → Prop}
    (h : ReflTransGen (Internal P) s s') (m : ModuleId) :
    (s'.modInfo m).isRegistered = (s.modInfo m).isRegistered := by
  induction h with
  | refl => rfl
  | tail _ hstep ih => rw [hstep.isRegistered, ih]

/-- A change of a module's queue keeps the other fields of the modules. -/
theorem isRegistered_setModule_queue (s : FlashApi) (m m' : ModuleId) (q : List OperaInfo) :
    ((s.setModule m' { s.modInfo m' with operaInfo := q }).modInfo m).isRegistered =
      (s.modInfo m).isRegistered := by
  by_cases hm : m = m'
  · subst hm
    simp [FlashApi.setModule]
  · simp [FlashApi.setModule, Function.update_of_ne hm]

theorem halIssue_modInfo {d : FlashId} {op : NorMemory.Op} {addr len : Nat} {hr : HalRet}
    (h : halIssue pf s d op addr len false .ok = some (s', hr)) : s'.modInfo = s.modInfo := by
  rcases halIssue_sync h with ⟨rfl, -⟩ | ⟨-, -, rfl⟩ <;> rfl

/-- No call takes a module away. -/
theorem Wf.isRegistered_of_call (hs : Wf s) {e : Event} {ret : ApiRet}
    (h : Norflash.call pf s e = some (s', ret)) (hreg : (s.modInfo m).isRegistered = true) :
    (s'.modInfo m).isRegistered = true := by
  have hdrained {m' : ModuleId} {polls : List Bool} {s₁ : FlashApi}
      (hdrain : syncDrain pf s m' polls = some s₁) : (s₁.modInfo m).isRegistered = true := by
    rw [internals_isRegistered (syncDrain_internal (P := fun _ _ _ => True) hs hdrain), hreg]
  cases e with
  | register m' d base len block sector page bufferLen cb =>
    obtain ⟨rfl, -⟩ : _ = s' ∧ _ = ret := by
      simpa only [Norflash.call, Option.some.injEq, Prod.ext_iff] using h
    simp only [norflashApiRegister]
    split_ifs <;> try exact hreg
    by_cases hm : m = m'
    · subst hm
      simp [FlashApi.setModule]
    · simpa [FlashApi.setModule, Function.update_of_ne hm] using hreg
  | erase m' addr len async polls =>
    rcases norflashApiErase_cases h with ⟨-, rfl⟩ | ⟨-, ⟨-, p, q, ok, -, rfl, -⟩ |
      ⟨-, s₁, hr, hdrain, hhal, -⟩⟩
    · exact hreg
    · exact (isRegistered_setModule_queue s m m' q).trans hreg
    · rw [halIssue_modInfo hhal]
      exact hdrained hdrain
  | write m' addr buffer len async polls =>
    rcases norflashApiWrite_cases h with ⟨-, rfl⟩ | ⟨-, ⟨-, p, q, ok, -, rfl, -⟩ |
      ⟨-, s₁, hr, hdrain, hhal, -⟩⟩
    · exact hreg
    · exact (isRegistered_setModule_queue s m m' q).trans hreg
    · rw [halIssue_modInfo hhal]
      exact hdrained hdrain
  | flush polls ans =>
    simp only [Norflash.call, Option.map_eq_some_iff, Prod.mk.injEq] at h
    obtain ⟨⟨s₁, b⟩, hflush, rfl, -⟩ := h
    rw [internals_isRegistered (norflashApiFlush_internal hs (halAllows_true s ans) hflush), hreg]
  | flushDisable cb | flushEnable =>
    simp only [Norflash.call, norflashApiFlushDisable, norflashApiFlushEnable, Option.some.injEq,
      Prod.mk.injEq] at h
    rw [if_neg (by simp [hs.inited])] at h
    exact h.1 ▸ hreg

/-- The service keeps to the memory map, and the module is registered. -/
structure Ready (lay : Layout pf) (m : ModuleId) (s : FlashApi) : Prop where
  sound : Sound lay s
  isRegistered : (s.modInfo m).isRegistered = true

theorem Ready.call (h : Ready lay m s) {e : Event} {ret : ApiRet} (he : e.Conforms lay)
    (hcall : Norflash.call pf s e = some (s', ret)) : Ready lay m s' :=
  ⟨h.sound.call he hcall, h.sound.wf.isRegistered_of_call hcall h.isRegistered⟩

/-- The calls of the other threads keep to the memory map. -/
def FlushTurn.Conforms (lay : Layout pf) (turn : FlushTurn) : Prop :=
  ∀ e ∈ turn.others, e.Conforms lay

theorem Ready.others (h : Ready lay m s) {es : List Event} (hes : ∀ e ∈ es, e.Conforms lay)
    (hrun : es.foldlM (step pf) s = some s') : Ready lay m s' := by
  induction es generalizing s with
  | nil =>
    obtain rfl : s = s' := by simpa using hrun
    exact h
  | cons e es ih =>
    obtain ⟨t, ht, hrest⟩ := Transition.foldlM_cons_eq_some hrun
    obtain ⟨⟨t', ret⟩, hcall, rfl⟩ := Option.map_eq_some_iff.1 ht
    exact ih (h.call (hes e List.mem_cons_self) hcall)
      (fun e he => hes e (List.mem_cons_of_mem _ he)) hrest

/-! ### Valid calls -/

variable (count : ModuleInfo → Nat) {turns turns' : List FlushTurn}

/-- The loop does not fail an assertion of its own, and what follows it starts in a ready state with
some of the turns. -/
def Continues (lay : Layout pf) (m : ModuleId) (turns : List FlushTurn) :
    Except AppErr (FlashApi × List FlushTurn) → Prop
  | .error err => err ≠ .assertion
  | .ok (s, turns') => Ready lay m s ∧ turns' <:+ turns

theorem Continues.of_suffix {out : Except AppErr (FlashApi × List FlushTurn)}
    (h : Continues lay m turns' out) (hsuf : turns' <:+ turns) : Continues lay m turns out := by
  cases out with
  | error err => exact h
  | ok out => exact ⟨h.1, h.2.trans hsuf⟩

theorem flushPendingOp_continues (hs : Ready lay m s) (hturns : ∀ t ∈ turns, t.Conforms lay) :
    Continues lay m turns (flushPendingOp pf m count turns s) := by
  induction turns generalizing s with
  | nil => exact AppErr.noConfusion
  | cons turn turns ih =>
    simp only [flushPendingOp]
    cases hflush : norflashApiFlush pf s turn.polls turn.ans with
    | none => exact AppErr.noConfusion
    | some out =>
      have hready : Ready lay m out.1 := hs.call (e := .flush turn.polls turn.ans) trivial
        (by rw [call, hflush, Option.map_some])
      simp only
      split
      · exact ⟨hready, List.suffix_cons turn turns⟩
      · cases hothers : turn.others.foldlM (step pf) out.1 with
        | none => exact AppErr.noConfusion
        | some t =>
          exact (ih (hready.others (hturns turn List.mem_cons_self) hothers)
            fun t ht => hturns t (List.mem_cons_of_mem _ ht)).of_suffix
              (List.suffix_cons turn turns)

/-- In every ready state the call is accepted, or the queue is full. -/
def Valid (lay : Layout pf) (m : ModuleId) (e : Event) : Prop :=
  e.Conforms lay ∧ ∀ s s' ret, Ready lay m s → call pf s e = some (s', ret) →
    ret = .ok ∨ ret = .bufferFull

theorem retryCall_continues {e : Event} (he : Valid lay m e) (fuel : Nat) (hs : Ready lay m s)
    (hturns : ∀ t ∈ turns, t.Conforms lay) :
    Continues lay m turns (retryCall pf m count e fuel turns s) := by
  induction fuel generalizing s turns with
  | zero => exact AppErr.noConfusion
  | succ fuel ih =>
    simp only [retryCall]
    cases hcall : call pf s e with
    | none => exact AppErr.noConfusion
    | some out =>
      obtain ⟨s₁, ret⟩ := out
      have hready := hs.call he.1 hcall
      rcases he.2 s s₁ ret hs hcall with rfl | rfl
      · exact ⟨hready, List.suffix_rfl⟩
      · have hflush := flushPendingOp_continues count hready hturns
        cases hout : flushPendingOp pf m count turns s₁ with
        | error err =>
          rw [hout] at hflush
          simpa only [hout] using hflush
        | ok out =>
          rw [hout] at hflush
          simp only [hout]
          exact (ih hflush.1 fun t ht => hturns t (hflush.2.subset ht)).of_suffix hflush.2

/-- Valid calls are accepted one after the other, as far as the turns last. -/
theorem issueCalls_spec {event : Nat × Nat → Event} {cs : List (Nat × Nat)}
    (hcs : ∀ c ∈ cs, Valid lay m (event c)) (hs : Ready lay m s)
    (hturns : ∀ t ∈ turns, t.Conforms lay) :
    (issueCalls pf m count event cs turns s).1 <+: cs ∧
      Continues lay m turns (issueCalls pf m count event cs turns s).2 ∧
      ∀ out, (issueCalls pf m count event cs turns s).2 = .ok out →
        (issueCalls pf m count event cs turns s).1 = cs := by
  induction cs generalizing s turns with
  | nil => exact ⟨List.nil_prefix, ⟨hs, List.suffix_rfl⟩, fun _ _ => rfl⟩
  | cons c cs ih =>
    have hone := retryCall_continues count (hcs c List.mem_cons_self)
      (turns.length + 1) hs hturns
    simp only [issueCalls]
    cases hout : retryCall pf m count (event c) (turns.length + 1) turns s with
    | error err =>
      rw [hout] at hone
      exact ⟨List.nil_prefix, hone, fun _ h => by simp at h⟩
    | ok out =>
      rw [hout] at hone
      obtain ⟨hpre, hcont, hall⟩ := ih (fun c hc => hcs c (List.mem_cons_of_mem _ hc)) hone.1
        fun t ht => hturns t (hone.2.subset ht)
      exact ⟨(List.prefix_cons_inj c).2 hpre, hcont.of_suffix hone.2,
        fun o ho => congrArg (c :: ·) (hall o ho)⟩

/-! ### Ranges of a module -/

/-- An offset in the area is one on the device. -/
theorem Region.physAddr_add (r : Region pf) {d : Nat} (hd : d < r.len) :
    physAddr (r.base + d) = physAddr r.base + d := by
  have hfits := r.fits
  have htotal := r.total_le
  unfold physAddr at *
  rw [← Nat.mod_add_mod, Nat.mod_eq_of_lt (by omega)]

/-- An address in the area is in the window of its base. -/
theorem Region.div_addrSpan (r : Region pf) {d : Nat} (hd : d < r.len) :
    (r.base + d) / addrSpan = r.base / addrSpan := by
  have hphys := r.physAddr_add hd
  have hdiv := Nat.div_add_mod r.base addrSpan
  have hdiv' := Nat.div_add_mod (r.base + d) addrSpan
  unfold physAddr at hphys
  rw [hphys] at hdiv'
  exact Nat.eq_of_mul_eq_mul_left addrSpan_pos (by omega)

/-- A range of the area passes the check of the addresses. -/
theorem Region.addrIsValide (r : Region pf) {d len : Nat} (hpos : 0 < len)
    (hend : d + len ≤ r.len) : addrIsValide r.base r.len (r.base + d) len = true := by
  have hfits := r.fits
  have htotal := r.total_le
  have hspan := addrSpan_lt
  rw [Norflash.addrIsValide, r.physAddr_add (by omega), Nat.mod_eq_of_lt (by omega),
    Nat.mod_eq_of_lt (by omega)]
  simp only [Bool.and_eq_true, decide_eq_true_eq]
  omega

/-- A module as `app_flash_register_module` registers it, in an area that starts at a block: its
lengths are those of the device, and its callers use the addresses that start at its base. -/
structure BlockRegion (lay : Layout pf) (blockSize : FlashId → Nat) (m : ModuleId)
    (r : Region pf) : Prop where
  region : lay.region m = some r
  window : r.base / addrSpan = lay.window m
  blockSize : blockSize r.devId = r.blockLen
  isPowerOfTwo : r.blockLen.isPowerOfTwo
  sector_isPowerOfTwo : r.sectorLen.isPowerOfTwo
  dvd_base : r.blockLen ∣ r.base

/-- A sector or block of the area can be erased. -/
theorem valid_erase (hr : lay.region m = some r) (hwindow : r.base / addrSpan = lay.window m)
    {d len : Nat} (hdvd : r.sectorLen ∣ r.base + d) (hlen : len = r.sectorLen ∨ len = r.blockLen)
    (hend : d + len ≤ r.len) : Valid lay m (.erase m (r.base + d) len true []) := by
  have hpos : 0 < len := hlen.elim (fun h => h ▸ r.sectorLen_pos) fun h => h ▸ r.blockLen_pos
  refine ⟨(r.div_addrSpan (by omega)).trans hwindow, fun s s' ret hs hcall => ?_⟩
  have hmat := hs.sound.matches_region hr hs.isRegistered
  have hchk : checkErase s (s.modInfo m) (r.base + d) len = .ok () := by
    rw [checkErase, hmat.modBaseAddr, hmat.modLen, hmat.modSectorLen, hmat.modBlockLen,
      hs.sound.wf.inited, hs.isRegistered, r.addrIsValide hpos hend, Nat.div_mul_cancel hdvd]
    rcases hlen with rfl | rfl <;> simp [pure, Except.pure]
  rcases norflashApiErase_cases hcall with ⟨herr, -⟩ | ⟨-, ⟨-, p, q, ok, -, -, rfl⟩ | ⟨hsync, -⟩⟩
  · rw [hchk] at herr
    simp at herr
  · cases ok
    · exact .inr rfl
    · exact .inl rfl
  · exact absurd hsync Bool.noConfusion

/-- **What `app_flash_erase` erases.** In every state, and whatever happens in the flush loops, no
assertion of the function fails, and its accepted calls are the first of the pieces. When it
returns, they are all pieces: they cover the range once, and every block starts at a block boundary,
exactly when no block is erased, or the offset is a multiple of the block length or lies in the
middle of a block. Then the chip erases the bytes of the range and no others. -/
theorem appFlashErase_exact_iff (lay : Layout pf) (blockSize : FlashId → Nat) (m : ModuleId)
    (r : Region pf) (hr : BlockRegion lay blockSize m r) (s : FlashApi) (hs : Ready lay m s)
    (flashOffset len : Nat) (hoffset : r.sectorLen ∣ flashOffset) (hlen : r.sectorLen ∣ len)
    (hend : flashOffset + len ≤ r.len) (turns : List FlushTurn)
    (hturns : ∀ t ∈ turns, t.Conforms lay) :
    (appFlashErase pf blockSize s m flashOffset len turns).2 ≠ .error .assertion ∧
      (appFlashErase pf blockSize s m flashOffset len turns).1 <+:
        tile (r.base + flashOffset) (eraseLens r.blockLen r.sectorLen flashOffset len) ∧
      ∀ out, (appFlashErase pf blockSize s m flashOffset len turns).2 = .ok out →
        (ErasesExactly r.blockLen (appFlashErase pf blockSize s m flashOffset len turns).1
          (r.base + flashOffset) len ↔ BlocksAligned r.blockLen flashOffset len) ∧
        (BlocksAligned r.blockLen flashOffset len → ∀ x,
          (∃ c ∈ (appFlashErase pf blockSize s m flashOffset len turns).1, chipErases c x) ↔
            r.base + flashOffset ≤ x ∧ x < r.base + flashOffset + len) := by
  have hmat := hs.sound.matches_region hr.region hs.isRegistered
  have hmask : ∀ x, r.sectorLen ∣ x → x &&& (r.sectorLen - 1) = 0 := fun x hx => by
    rw [Nat.and_comm, mask_eq_mod hr.sector_isPowerOfTwo, Nat.mod_eq_zero_of_dvd hx]
  have herase : appFlashErase pf blockSize s m flashOffset len turns =
      issueCalls pf m ModuleInfo.getECount (fun c => .erase m c.1 c.2 true [])
        (tile (r.base + flashOffset) (eraseLens r.blockLen r.sectorLen flashOffset len))
        turns s := by
    simp only [appFlashErase, hs.sound.wf.inited, hs.isRegistered, Bool.and_self, if_true,
      hmat.devId, hmat.modBaseAddr, ← r.sectorLen_eq, hr.blockSize]
    rw [if_neg (by rw [hmask _ hoffset, hmask _ hlen]; simp)]
  have hdvd := Nat.dvd_add (Nat.dvd_trans r.dvd_blockLen hr.dvd_base) hoffset
  have hvalid : ∀ c ∈ tile (r.base + flashOffset)
      (eraseLens r.blockLen r.sectorLen flashOffset len),
      Valid lay m (.erase m c.1 c.2 true []) := by
    intro c hc
    obtain ⟨hlo, hhi, -⟩ := mem_tile hc
    rw [eraseLens_sum hr.isPowerOfTwo r.dvd_blockLen hoffset hlen] at hhi
    obtain ⟨hsector, hlenc⟩ := mem_erase_tile hr.isPowerOfTwo r.dvd_blockLen hoffset hlen hdvd hc
    obtain ⟨d, hd⟩ : ∃ d, c.1 = r.base + d := ⟨c.1 - r.base, by omega⟩
    rw [hd] at hsector ⊢
    exact valid_erase hr.region hr.window hsector
      (hlenc.imp id fun ⟨i, _, h⟩ => congrArg Prod.snd h) (by omega)
  rw [herase]
  obtain ⟨hpre, hcont, hall⟩ := issueCalls_spec ModuleInfo.getECount hvalid hs hturns
  refine ⟨fun herr => ?_, hpre, fun out hout => ?_⟩
  · rw [herr] at hcont
    exact hcont rfl
  · rw [hall out hout]
    have hiff := erasesExactly_iff hr.isPowerOfTwo r.dvd_blockLen hr.dvd_base hoffset hlen
    refine ⟨hiff, fun haligned => (hiff.2 haligned).chipErases_iff fun c hc => ?_⟩
    obtain ⟨hsector, hlenc⟩ := mem_erase_tile hr.isPowerOfTwo r.dvd_blockLen hoffset hlen hdvd hc
    exact hlenc.symm.imp (fun ⟨i, _, h⟩ => congrArg Prod.snd h) fun h => by rwa [h]

/-! ### The board -/

/-- The blocks of the board's devices. -/
def boardBlockSize : FlashId → Nat := fun _ => 0x8000

/-- The service of the board when the user data area has been registered. -/
def boardRegistered : FlashApi :=
  (norflashApiRegister (init board fun _ _ => 0xFF) .userdata .id0 0x3C700000 0x20000 0x8000 0x1000
    0x100 0x2000 true).1

theorem blockRegion_userdata : BlockRegion boardLayout boardBlockSize .userdata userdataRegion :=
  ⟨rfl, rfl, rfl, ⟨15, rfl⟩, ⟨12, rfl⟩, ⟨0x78E0, rfl⟩⟩

theorem ready_boardRegistered : Ready boardLayout .userdata boardRegistered :=
  ⟨(sound_init boardLayout _).register ⟨userdataRegion, rfl, rfl, rfl, rfl, rfl, rfl, rfl⟩, rfl⟩

/-- A range that starts at the second sector of a block and is a block and a sector long: the block
is erased from the third sector on, so the chip erases the whole block from the first sector on. -/
theorem appFlashErase_misaligned :
    (appFlashErase board boardBlockSize boardRegistered .userdata 0x1000 0x9000 []).1 =
        [(0x3C701000, 0x1000), (0x3C702000, 0x8000)] ∧
      (∃ out, (appFlashErase board boardBlockSize boardRegistered .userdata 0x1000 0x9000 []).2 =
        .ok out) ∧
      ¬ErasesExactly 0x8000 [(0x3C701000, 0x1000), (0x3C702000, 0x8000)] 0x3C701000 0x9000 ∧
      chipErases (0x3C702000, 0x8000) 0x3C700000 := by
  refine ⟨rfl, ⟨_, rfl⟩, fun h => ?_, by decide, by decide⟩
  have hdvd := h.aligned (0x3C702000, 0x8000) (by simp) rfl
  exact absurd hdvd (by decide)

/-- A range that is erased exactly, and one that is not. -/
theorem appFlashErase_exact_iff_userdata :
    ErasesExactly 0x8000
        (appFlashErase board boardBlockSize boardRegistered .userdata 0x8000 0x9000 []).1
        0x3C708000 0x9000 ∧
      ¬ErasesExactly 0x8000
        (appFlashErase board boardBlockSize boardRegistered .userdata 0x1000 0x9000 []).1
        0x3C701000 0x9000 := by
  have hexact := fun flashOffset hoffset hend =>
    (appFlashErase_exact_iff boardLayout boardBlockSize .userdata userdataRegion
      blockRegion_userdata boardRegistered ready_boardRegistered flashOffset 0x9000 hoffset
      ⟨9, rfl⟩ hend [] (by simp)).2.2
  exact ⟨(hexact 0x8000 ⟨8, rfl⟩ (by decide) _ rfl).1.2 (.inl rfl),
    fun h => absurd ((hexact 0x1000 ⟨1, rfl⟩ (by decide) _ rfl).1.1 h) (by decide)⟩

end EarbudFirmware.Norflash
