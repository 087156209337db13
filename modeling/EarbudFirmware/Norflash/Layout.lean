import EarbudFirmware.Norflash.Content
import EarbudFirmware.Norflash.Steps

/-!
# Flash service: the memory map

The linker script gives the modules disjoint areas, and the drivers report the sector and block
sizes that the modules register with. All callers of a module address its area through one of the
address windows of the flash device (`FLASH_BASE`, `FLASH_NC_BASE`, …).

## Main definitions

* `Region`, `Layout` — the area of a module, the memory map
* `Event.Conforms` — a call keeps to the memory map
* `Sound` — the structural invariant, with every queued node placed in its area

## Main results

* `Sound.call` — calls that keep to the memory map keep the invariant
* `Sound.queueStep` — an internal step, seen from one module
* `Sound.call_view` — a call for another module, seen from one module
-/

namespace EarbudFirmware.Norflash

open NorMemory
open Relation (ReflTransGen)

/-- The area of a module on a board. -/
structure Region (pf : Platform) where
  devId : FlashId
  base : Nat
  len : Nat
  blockLen : Nat
  sectorLen : Nat
  pageLen : Nat
  sectorLen_eq : sectorLen = pf.sectorSize devId
  sectorLen_pos : 0 < sectorLen
  sectorLen_dvd : sectorLen ∣ addrSpan
  blockLen_pos : 0 < blockLen
  dvd_blockLen : sectorLen ∣ blockLen
  blockLen_lt : blockLen < 2 ^ 31
  fits : physAddr base + len ≤ pf.totalSize devId
  total_le : pf.totalSize devId ≤ addrSpan

/-- The memory map: the areas are disjoint, and the callers of a module use the address window
number `window`. -/
structure Layout (pf : Platform) where
  region : ModuleId → Option (Region pf)
  window : ModuleId → Nat
  disjoint : ∀ m m' r r', region m = some r → region m' = some r' → m ≠ m' →
    r.devId = r'.devId →
      physAddr r.base + r.len ≤ physAddr r'.base ∨ physAddr r'.base + r'.len ≤ physAddr r.base

variable {pf : Platform}

namespace Layout

/-- The area of the module `m` in the addresses of its callers. -/
def area (lay : Layout pf) (m : ModuleId) (r : Region pf) : Area where
  secLen := r.sectorLen
  blockLen := r.blockLen
  lo := lay.window m * addrSpan + physAddr r.base
  hi := lay.window m * addrSpan + physAddr r.base + r.len
  secLen_pos := r.sectorLen_pos
  blockLen_pos := r.blockLen_pos
  dvd_blockLen := r.dvd_blockLen

variable {lay : Layout pf} {m : ModuleId} {r : Region pf}

/-- The cells of an area are reached by removing the window. -/
theorem physAddr_of_mem {x : Nat} (hx : (lay.area m r).lo ≤ x) (hx' : x < (lay.area m r).hi) :
    physAddr x + lay.window m * addrSpan = x ∧ x / addrSpan = lay.window m := by
  have h₁ := r.fits
  have h₂ := r.total_le
  simp only [area] at hx hx'
  have hlt : physAddr r.base + r.len ≤ addrSpan := by omega
  have hdiv : x / addrSpan = lay.window m :=
    Nat.div_eq_of_lt_le (by omega) (by rw [Nat.add_mul]; omega)
  refine ⟨?_, hdiv⟩
  have := Nat.div_add_mod x addrSpan
  rw [hdiv, mul_comm] at this
  unfold physAddr
  omega

/-- Ranges of the area correspond to ranges of cells. -/
theorem inRange_physAddr {a n x : Nat} (hn : 0 < n) (ha : (lay.area m r).lo ≤ a)
    (hn' : a + n ≤ (lay.area m r).hi) (hx : (lay.area m r).Mem x) :
    (InRange (physAddr a) n (physAddr x) ↔ InRange a n x) ∧
      physAddr x - physAddr a = x - a := by
  have h₁ := (physAddr_of_mem hx.1 hx.2).1
  have h₂ := (physAddr_of_mem ha (by omega)).1
  unfold InRange
  omega

/-- Cells of the area lie in the region. -/
theorem physAddr_mem {x : Nat} (hx : (lay.area m r).Mem x) :
    physAddr r.base ≤ physAddr x ∧ physAddr x < physAddr r.base + r.len := by
  have h₁ := (physAddr_of_mem hx.1 hx.2).1
  obtain ⟨h₂, h₃⟩ := hx
  simp only [area] at h₂ h₃
  omega

/-- A range of the area covers cells of the region only. -/
theorem region_of_inRange {a n p : Nat} (hn : 0 < n) (ha : (lay.area m r).lo ≤ a)
    (hn' : a + n ≤ (lay.area m r).hi) (hp : InRange (physAddr a) n p) :
    physAddr r.base ≤ p ∧ p < physAddr r.base + r.len := by
  have h₁ := (physAddr_of_mem ha (by omega)).1
  unfold InRange at hp
  simp only [area] at ha hn'
  omega

end Layout

/-! ### Nodes on the cells of the device -/

section Cells

variable {lay : Layout pf} {m m' : ModuleId} {r r' : Region pf} {n : OperaInfo}

/-- On the cells of its area a node acts as on the addresses. -/
theorem OperaInfo.Placed.physOp_byteAt (h : n.Placed (lay.area m r)) {x : Nat}
    (hx : (lay.area m r).Mem x) (b : UInt8) :
    n.physOp.byteAt (physAddr x) b = n.op.byteAt x b := by
  have hlen := h.len_pos
  obtain ⟨-, h⟩ := h
  unfold OperaInfo.physOp OperaInfo.op
  cases ho : n.opera with
  | writting wOffs wLen buff =>
    simp only [ho] at h
    obtain ⟨-, hpos, -, hlo, hhi⟩ := h
    obtain ⟨hiff, hsub⟩ := Layout.inRange_physAddr hpos hlo hhi hx
    simp only [Op.byteAt, hiff, hsub]
  | erasing =>
    simp only [ho] at h
    obtain ⟨-, hlo, hhi⟩ := h
    simp only [Op.byteAt, (Layout.inRange_physAddr hlen hlo hhi hx).1]

/-- A node changes only cells of its region. -/
theorem OperaInfo.Placed.region_of_covers (h : n.Placed (lay.area m r)) {p : Nat}
    (hp : n.physOp.Covers p) : physAddr r.base ≤ p ∧ p < physAddr r.base + r.len := by
  have hlen := h.len_pos
  obtain ⟨-, h⟩ := h
  unfold OperaInfo.physOp at hp
  split at h
  case h_1 wOffs wLen buff ho =>
    obtain ⟨-, hpos, -, hlo, hhi⟩ := h
    rw [ho] at hp
    exact Layout.region_of_inRange hpos hlo hhi hp
  case h_2 ho =>
    obtain ⟨-, hlo, hhi⟩ := h
    rw [ho] at hp
    exact Layout.region_of_inRange hlen hlo hhi hp

/-- Cells of different modules of a device are different. -/
theorem Layout.not_mem_of_ne (hr : lay.region m = some r) (hr' : lay.region m' = some r')
    (hm : m' ≠ m) (hdev : r'.devId = r.devId) {x p : Nat} (hx : (lay.area m r).Mem x)
    (hp : physAddr r'.base ≤ p ∧ p < physAddr r'.base + r'.len) : physAddr x ≠ p := by
  rintro rfl
  have h₁ := Layout.physAddr_mem hx
  have h₂ := lay.disjoint m' m r' r hr' hr hm hdev
  omega

end Cells

/-! ### Accepted arguments -/

section Arguments

variable {lay : Layout pf} {m : ModuleId} {r : Region pf}

/-- What `ADDR_IS_VALIDE` accepts in the address window of the module. -/
theorem Layout.bounds_of_addrIsValide {addr len : Nat} (haddr : addr / addrSpan = lay.window m)
    (hlen : len < 2 ^ 31) (h : addrIsValide r.base r.len addr len = true) :
    (lay.area m r).lo ≤ addr ∧ addr + len ≤ (lay.area m r).hi := by
  have h₁ := r.fits
  have h₂ := r.total_le
  have hspan := addrSpan_lt
  have h₃ := Nat.div_add_mod addr addrSpan
  have h₄ : physAddr addr < addrSpan := Nat.mod_lt _ addrSpan_pos
  rw [haddr, mul_comm] at h₃
  simp only [addrIsValide, Bool.and_eq_true, decide_eq_true_eq, ge_iff_le] at h
  rw [Nat.mod_eq_of_lt (by omega), Nat.mod_eq_of_lt (by omega)] at h
  simp only [area]
  unfold physAddr at *
  omega

/-- The offset of an address in its sector does not depend on the window. -/
theorem sub_secStart_physAddr {secLen : Nat} (hdvd : secLen ∣ addrSpan) (addr : Nat) :
    physAddr addr - secStart secLen (physAddr addr) = addr - secStart secLen addr := by
  have hmod : ∀ y, y - secStart secLen y = y % secLen := by
    intro y
    have := Nat.div_add_mod y secLen
    unfold secStart
    rw [mul_comm] at this
    omega
  rw [hmod, hmod]
  unfold physAddr
  rw [Nat.mod_mod_of_dvd _ hdvd]

/-- What `IN_ONE_SECTOR` accepts. -/
theorem Region.end_of_inOneSector (r : Region pf) {addr len : Nat} (hpos : 0 < len)
    (hlen : len < 2 ^ 31) (h : inOneSector addr len (pf.sectorSize r.devId) = true) :
    addr - secStart r.sectorLen addr + len ≤ r.sectorLen := by
  rw [← r.sectorLen_eq] at h
  have hspan := addrSpan_lt
  have h₁ : physAddr addr < addrSpan := Nat.mod_lt _ addrSpan_pos
  simp only [inOneSector, beq_iff_eq] at h
  rw [Nat.mod_eq_of_lt (by omega)] at h
  have h₂ := lt_secStart_add r.sectorLen_pos (physAddr addr + len - 1)
  have h₃ := secStart_le r.sectorLen (physAddr addr)
  rw [← sub_secStart_physAddr r.sectorLen_dvd]
  unfold secStart at h₂ h₃ ⊢
  rw [← h] at h₂
  omega

end Arguments

/-! ### Calls that keep to the memory map -/

/-- The module record holds the values of the region. -/
structure ModuleInfo.Matches (mi : ModuleInfo) (r : Region pf) : Prop where
  devId : mi.devId = r.devId
  modBaseAddr : mi.modBaseAddr = r.base
  modLen : mi.modLen = r.len
  modBlockLen : mi.modBlockLen = r.blockLen
  modSectorLen : mi.modSectorLen = r.sectorLen

/-- The module that a call modifies. -/
def Event.target : Event → Option ModuleId
  | .erase m .. => some m
  | .write m .. => some m
  | _ => none

/-- A call keeps to the memory map: a module registers with its region, addresses lie in the address
window of the module, and the caller's buffer is smaller than half of the address space. -/
def Event.Conforms (lay : Layout pf) : Event → Prop
  | .register m d base len block sector page _ _ => ∃ r, lay.region m = some r ∧ d = r.devId ∧
      base = r.base ∧ len = r.len ∧ block = r.blockLen ∧ sector = r.sectorLen ∧ page = r.pageLen
  | .erase m addr _ _ _ => addr / addrSpan = lay.window m
  | .write m addr _ len _ _ => addr / addrSpan = lay.window m ∧ len < 2 ^ 31
  | _ => True

/-- The structural invariant together with the memory map. -/
structure Sound (lay : Layout pf) (s : FlashApi) : Prop where
  wf : Wf s
  region : ∀ m, (s.modInfo m).isRegistered = true →
    ∃ r, lay.region m = some r ∧ (s.modInfo m).Matches r
  placed : ∀ m r, lay.region m = some r → ∀ n ∈ (s.modInfo m).operaInfo, n.Placed (lay.area m r)

namespace Sound

variable {lay : Layout pf} {s s' : FlashApi} {m : ModuleId} {r : Region pf}
  {P : Op → Content → Content → Prop}

theorem matches_region (hs : Sound lay s) (hr : lay.region m = some r)
    (hreg : (s.modInfo m).isRegistered = true) : (s.modInfo m).Matches r := by
  obtain ⟨r', hr', hm⟩ := hs.region m hreg
  rw [hr, Option.some.injEq] at hr'
  exact hr' ▸ hm

/-- A change of the queue of one module keeps the invariant when the new queue is placed. -/
theorem of_module (hs : Sound lay s) (hwf : Wf s') (m : ModuleId)
    (hmod : ∀ m', m' ≠ m → s'.modInfo m' = s.modInfo m')
    (hreg : (s'.modInfo m).isRegistered = (s.modInfo m).isRegistered)
    (hmatch : ∀ r : Region pf, (s.modInfo m).Matches r → (s'.modInfo m).Matches r)
    (hplaced : ∀ r, lay.region m = some r →
      ∀ n ∈ (s'.modInfo m).operaInfo, n.Placed (lay.area m r)) : Sound lay s' := by
  refine ⟨hwf, fun m' hm' => ?_, fun m' r hr => ?_⟩
  · by_cases hm : m' = m
    · subst hm
      obtain ⟨r, hr, hmat⟩ := hs.region m' (hreg ▸ hm')
      exact ⟨r, hr, hmatch r hmat⟩
    · rw [hmod m' hm] at hm' ⊢
      exact hs.region m' hm'
  · by_cases hm : m' = m
    · subst hm
      exact hplaced r hr
    · rw [hmod m' hm]
      exact hs.placed m' r hr

theorem internal (hs : Sound lay s) (h : Internal P s s') : Sound lay s' := by
  have hwf := h.wf hs.wf
  cases h with
  | control i c b hbusy hreg => exact ⟨hwf, hs.region, hs.placed⟩
  | @complete m q t hq hfree k =>
    refine hs.of_module hwf m (fun m' hm => Function.update_of_ne hm _ _)
      (by simp [FlashApi.completeTail]) (fun r h => ?_) fun r hr n hn => ?_
    · simpa [FlashApi.completeTail] using ⟨h.1, h.2, h.3, h.4, h.5⟩
    · refine hs.placed m r hr n ?_
      simp only [FlashApi.completeTail, Function.update_self] at hn
      simp [hq, hn]
  | @suspend m q t hq hcur cells hcells k =>
    refine hs.of_module hwf m (fun m' hm => Function.update_of_ne hm _ _)
      (by simp [FlashApi.suspendTail]) (fun r h => ?_) fun r hr n hn => ?_
    · simpa [FlashApi.suspendTail] using ⟨h.1, h.2, h.3, h.4, h.5⟩
    · simp only [FlashApi.suspendTail, Function.update_self, List.mem_append,
        List.mem_singleton] at hn
      rcases hn with hn | rfl
      · exact hs.placed m r hr n (by simp [hq, hn])
      · exact (hs.placed m r hr t (by simp [hq])).lock true

theorem internals (hs : Sound lay s) (h : ReflTransGen (Internal P) s s') : Sound lay s' := by
  induction h with
  | refl => exact hs
  | tail _ hstep ih => exact ih.internal hstep

/-- The arguments of an accepted erase. -/
theorem erase_args (hs : Sound lay s) {addr len : Nat} (haddr : addr / addrSpan = lay.window m)
    (hchk : checkErase s (s.modInfo m) addr len = .ok ()) :
    ∃ r, lay.region m = some r ∧ (s.modInfo m).Matches r ∧ r.sectorLen ∣ addr ∧
      (len = r.sectorLen ∨ len = r.blockLen) ∧
      (lay.area m r).lo ≤ addr ∧ addr + len ≤ (lay.area m r).hi := by
  obtain ⟨hreg, hvalid, halign, hlen⟩ := checkErase_ok hchk
  obtain ⟨r, hr, hmat⟩ := hs.region m hreg
  rw [hmat.modSectorLen] at halign hlen
  rw [hmat.modBlockLen] at hlen
  rw [hmat.modBaseAddr, hmat.modLen] at hvalid
  have hlt : len < 2 ^ 31 := by
    have h₁ := Nat.le_of_dvd r.blockLen_pos r.dvd_blockLen
    have h₂ := r.blockLen_lt
    omega
  refine ⟨r, hr, hmat, ?_, hlen, Layout.bounds_of_addrIsValide haddr hlt hvalid⟩
  rw [← halign]
  exact Nat.dvd_mul_left _ _

/-- The arguments of an accepted write. -/
theorem write_args (hs : Sound lay s) {addr len : Nat} (haddr : addr / addrSpan = lay.window m)
    (hlen : len < 2 ^ 31) (hchk : checkAccess pf s (s.modInfo m) addr len = .ok ()) :
    ∃ r, lay.region m = some r ∧ (s.modInfo m).Matches r ∧ 0 < len ∧
      addr - secStart r.sectorLen addr + len ≤ r.sectorLen ∧
      (lay.area m r).lo ≤ addr ∧ addr + len ≤ (lay.area m r).hi := by
  obtain ⟨hreg, hvalid, hpos, hone⟩ := checkAccess_ok hchk
  obtain ⟨r, hr, hmat⟩ := hs.region m hreg
  rw [hmat.modBaseAddr, hmat.modLen] at hvalid
  rw [hmat.devId] at hone
  exact ⟨r, hr, hmat, hpos, r.end_of_inOneSector hpos hlen hone,
    Layout.bounds_of_addrIsValide haddr hlen hvalid⟩

/-- Queueing an erase keeps the invariant. -/
theorem eOperaAdd (hs : Sound lay s) {addr len : Nat} {p : Pools} {q : List OperaInfo} {ok : Bool}
    (haddr : addr / addrSpan = lay.window m)
    (hchk : checkErase s (s.modInfo m) addr len = .ok ())
    (h : Norflash.eOperaAdd (s.pools (s.modInfo m).devId) (s.modInfo m).operaInfo addr len =
      (p, q, ok)) :
    Sound lay
      ((s.setPools (s.modInfo m).devId p).setModule m { s.modInfo m with operaInfo := q }) := by
  obtain ⟨r, hr, hmat, hdvd, hlen, hlo, hhi⟩ := hs.erase_args haddr hchk
  refine hs.of_module (hs.wf.eOperaAdd (checkErase_ok hchk).1 h) m
    (fun m' hm => Function.update_of_ne hm _ _) (by simp [FlashApi.setModule])
    (fun r h => ?_) fun r' hr' n hn => ?_
  · simpa [FlashApi.setModule] using ⟨h.1, h.2, h.3, h.4, h.5⟩
  · rw [hr, Option.some.injEq] at hr'
    subst hr'
    simp only [FlashApi.setModule, Function.update_self] at hn
    have hown : ∀ n ∈ (s.modInfo m).operaInfo, n.slot ∈ (s.pools (s.modInfo m).devId).nodes :=
      fun n hn => hs.wf.nodes.used m n.slot (List.mem_filterMap.2 ⟨n, hn, rfl⟩)
    rcases eOperaAdd_cases (hs.wf.unlockedInit m) hown h with
      ⟨-, -, -, rfl⟩ | ⟨-, -, slot, _, -, -, rfl⟩ | ⟨-, -, -, rfl⟩
    · exact hs.placed m r hr n (List.mem_filter.1 hn).1
    · rcases List.mem_cons.1 hn with rfl | hn
      · exact ⟨hdvd, hlen, hlo, hhi⟩
      · exact hs.placed m r hr n (List.mem_filter.1 hn).1
    · exact hs.placed m r hr n hn

/-- Queueing a write keeps the invariant. -/
theorem wOperaAdd (hs : Sound lay s) {addr len : Nat} {flash : Content} {buffer : Nat → UInt8}
    {p : Pools} {q : List OperaInfo} {ok : Bool} (haddr : addr / addrSpan = lay.window m)
    (hlen : len < 2 ^ 31) (hchk : checkAccess pf s (s.modInfo m) addr len = .ok ())
    (h : Norflash.wOperaAdd (pf.sectorSize (s.modInfo m).devId) flash
      (s.pools (s.modInfo m).devId) (s.modInfo m).operaInfo (s.modInfo m).modSectorLen addr len
      buffer = some (p, q, ok)) :
    Sound lay
      ((s.setPools (s.modInfo m).devId p).setModule m { s.modInfo m with operaInfo := q }) := by
  obtain ⟨r, hr, hmat, hpos, hend, hlo, hhi⟩ := hs.write_args haddr hlen hchk
  have hle := secStart_le r.sectorLen addr
  refine hs.of_module (hs.wf.wOperaAdd (checkAccess_ok hchk).1 hpos h) m
    (fun m' hm => Function.update_of_ne hm _ _) (by simp [FlashApi.setModule])
    (fun r h => ?_) fun r' hr' n hn => ?_
  · simpa [FlashApi.setModule] using ⟨h.1, h.2, h.3, h.4, h.5⟩
  · rw [hr, Option.some.injEq] at hr'
    subst hr'
    simp only [FlashApi.setModule, Function.update_self] at hn
    rw [hmat.modSectorLen] at h
    rcases wOperaAdd_cases h with ⟨-, -, l, n', r', hq, hstart, -, -, -, rfl⟩ |
      ⟨-, old, slot, _, b, _, -, -, -, -, rfl⟩ | ⟨-, -, rfl⟩
    · have hplaced := hs.placed m r hr
      simp only [hq] at hplaced
      simp only [List.mem_append, List.mem_cons] at hn
      rcases hn with hn | rfl | hn
      · exact hplaced n (by simp [hn])
      · exact (hplaced n' (by simp)).widen hpos hend (by omega) (by omega)
      · exact hplaced n (by simp [hn])
    · rcases List.mem_cons.1 hn with rfl | hn
      · exact ⟨dvd_secStart _ _, rfl, hpos, hend, by simp only; omega, by simp only; omega⟩
      · exact hs.placed m r hr n hn
    · exact hs.placed m r hr n hn

theorem setFlash (hs : Sound lay s) (d : FlashId) (f : Content) : Sound lay (s.setFlash d f) :=
  ⟨hs.wf.setFlash d f, hs.region, hs.placed⟩

theorem halIssue_sync (hs : Sound lay s) {d : FlashId} {op : Op} {addr len : Nat} {hr : HalRet}
    (h : halIssue pf s d op addr len false .ok = some (s', hr)) : Sound lay s' := by
  rcases Norflash.halIssue_sync h with ⟨rfl, -⟩ | ⟨-, -, rfl⟩
  · exact hs
  · exact hs.setFlash d _

/-- Registering a module with its region keeps the invariant. -/
theorem register (hs : Sound lay s) {d : FlashId} {base len block sector page bufferLen : Nat}
    {cb : Bool}
    (hconf : (Event.register m d base len block sector page bufferLen cb).Conforms lay) :
    Sound lay (norflashApiRegister s m d base len block sector page bufferLen cb).1 := by
  have hwf := hs.wf.register m d base len block sector page bufferLen cb
  obtain ⟨r, hr, rfl, rfl, rfl, rfl, rfl, rfl⟩ := hconf
  unfold norflashApiRegister at hwf ⊢
  split_ifs at hwf ⊢
  · exact hs
  · exact hs
  · exact hs
  refine ⟨hwf, fun m' hm' => ?_, fun m' r' hr' n hn => ?_⟩
  · by_cases hm : m' = m
    · subst hm
      exact ⟨r, hr, by simp [FlashApi.setModule], by simp [FlashApi.setModule],
        by simp [FlashApi.setModule], by simp [FlashApi.setModule], by simp [FlashApi.setModule]⟩
    · simp only [FlashApi.setModule, Function.update_of_ne hm] at hm' ⊢
      exact hs.region m' hm'
  · by_cases hm : m' = m
    · subst hm
      simp [FlashApi.setModule] at hn
    · simp only [FlashApi.setModule, Function.update_of_ne hm] at hn
      exact hs.placed m' r' hr' n hn

/-- Calls that keep to the memory map keep the invariant. -/
theorem call (hs : Sound lay s) {e : Event} {ret : ApiRet} (he : e.Conforms lay)
    (h : Norflash.call pf s e = some (s', ret)) : Sound lay s' := by
  cases e with
  | register m d base len block sector page bufferLen cb =>
    obtain ⟨rfl, -⟩ : _ = s' ∧ _ = ret := by
      simpa only [Norflash.call, Option.some.injEq, Prod.ext_iff] using h
    exact hs.register he
  | erase m addr len async polls =>
    rcases norflashApiErase_cases h with ⟨-, rfl⟩ | ⟨hchk, ⟨-, p, q, ok, hadd, rfl, -⟩ |
      ⟨-, s₁, hr, hdrain, hhal, -⟩⟩
    · exact hs
    · exact hs.eOperaAdd he hchk hadd
    · exact (hs.internals (syncDrain_internal (P := fun _ _ _ => True) hs.wf hdrain)).halIssue_sync
        hhal
  | write m addr buffer len async polls =>
    rcases norflashApiWrite_cases h with ⟨-, rfl⟩ | ⟨hchk, ⟨-, p, q, ok, hadd, rfl, -⟩ |
      ⟨-, s₁, hr, hdrain, hhal, -⟩⟩
    · exact hs
    · exact hs.wOperaAdd he.1 he.2 hchk hadd
    · exact (hs.internals (syncDrain_internal (P := fun _ _ _ => True) hs.wf hdrain)).halIssue_sync
        hhal
  | flush polls ans =>
    simp only [Norflash.call, Option.map_eq_some_iff, Prod.mk.injEq] at h
    obtain ⟨⟨s₁, b⟩, hflush, rfl, -⟩ := h
    exact hs.internals (norflashApiFlush_internal hs.wf (halAllows_true s ans) hflush)
  | flushDisable cb =>
    simp only [Norflash.call, norflashApiFlushDisable, Option.some.injEq, Prod.mk.injEq] at h
    rw [if_neg (by simp [hs.wf.inited])] at h
    exact h.1 ▸ ⟨{ hs.wf with }, hs.region, hs.placed⟩
  | flushEnable =>
    simp only [Norflash.call, norflashApiFlushEnable, Option.some.injEq, Prod.mk.injEq] at h
    rw [if_neg (by simp [hs.wf.inited])] at h
    exact h.1 ▸ ⟨{ hs.wf with }, hs.region, hs.placed⟩

end Sound

theorem sound_init (lay : Layout pf) (flash : FlashId → Content) : Sound lay (init pf flash) :=
  ⟨wf_init pf flash, fun m h => by simp [init] at h, fun m r _ n hn => by simp [init] at hn⟩

/-! ### The flash seen from one module -/

/-- The flash of the region, in the addresses of the module's callers. -/
def FlashApi.view (s : FlashApi) (r : Region pf) : Content := fun x => s.flash r.devId (physAddr x)

theorem FlashApi.view_congr {s s' : FlashApi} (h : s'.flash = s.flash) (r : Region pf) :
    s'.view r = s.view r := by
  unfold FlashApi.view
  rw [h]

namespace Sound

variable {lay : Layout pf} {s s' : FlashApi} {m : ModuleId} {r : Region pf}

/-- The nodes of another module do not touch the area. -/
theorem not_covers_of_ne (hs : Sound lay s) (hr : lay.region m = some r) {m' : ModuleId}
    (hm : m' ≠ m) {n : OperaInfo} (hn : n ∈ (s.modInfo m').operaInfo)
    (hdev : (s.modInfo m').devId = r.devId) {x : Nat} (hx : (lay.area m r).Mem x) :
    ¬n.physOp.Covers (physAddr x) := by
  obtain ⟨r', hr', hmat⟩ := hs.region m' (hs.wf.registered_of_ne_nil (List.ne_nil_of_mem hn))
  intro hcov
  have hp := (hs.placed m' r' hr' n hn).region_of_covers hcov
  exact Layout.not_mem_of_ne hr hr' hm (hmat.devId ▸ hdev) hx hp rfl

/-- An internal step, seen from one module. -/
theorem queueStep (hs : Sound lay s) (hr : lay.region m = some r)
    (h : Internal Op.Partial s s') :
    QueueStep (lay.area m r) (s.modInfo m).operaInfo (s.view r) (s'.modInfo m).operaInfo
      (s'.view r) := by
  cases h with
  | control i c b hbusy hreg => exact .stay fun _ _ => rfl
  | @complete m' q t hq hfree k =>
    have hmem : t ∈ (s.modInfo m').operaInfo := by simp [hq]
    by_cases hm : m' = m
    · subst hm
      have hmat := hs.matches_region hr
        (hs.wf.registered_of_ne_nil (List.ne_nil_of_mem hmem))
      simp only [FlashApi.completeTail, Function.update_self]
      refine .complete hq fun x hx => ?_
      simp only [FlashApi.view, hmat.devId, Function.update_self, Op.apply_apply]
      exact (hs.placed m' r hr t hmem).physOp_byteAt hx _
    · simp only [FlashApi.completeTail, Function.update_of_ne (Ne.symm hm)]
      refine .stay fun x hx => ?_
      simp only [FlashApi.view]
      by_cases hdev : (s.modInfo m').devId = r.devId
      · rw [hdev, Function.update_self, Op.apply_apply]
        exact Op.byteAt_of_not_covers (hs.not_covers_of_ne hr hm hmem hdev hx) _
      · rw [Function.update_of_ne (Ne.symm hdev)]
  | @suspend m' q t hq hcur cells hcells k =>
    have hmem : t ∈ (s.modInfo m').operaInfo := by simp [hq]
    by_cases hm : m' = m
    · subst hm
      have hmat := hs.matches_region hr
        (hs.wf.registered_of_ne_nil (List.ne_nil_of_mem hmem))
      simp only [FlashApi.suspendTail, Function.update_self]
      refine .suspend hq fun x hx => ?_
      have hplaced := hs.placed m' r hr t hmem
      simp only [FlashApi.view, hmat.devId, Function.update_self]
      rw [← hplaced.physOp_byteAt hx, ← hplaced.physOp_byteAt hx]
      rw [hmat.devId] at hcells
      exact hcells.byteAt_eq _
    · simp only [FlashApi.suspendTail, Function.update_of_ne (Ne.symm hm)]
      refine .stay fun x hx => ?_
      simp only [FlashApi.view]
      by_cases hdev : (s.modInfo m').devId = r.devId
      · rw [hdev, Function.update_self]
        rw [hdev] at hcells
        exact hcells.eq_of_not_covers (hs.not_covers_of_ne hr hm hmem hdev hx)
      · rw [Function.update_of_ne (Ne.symm hdev)]

/-- What internal steps keep: a property of the queue and of the flash of one module that survives
the execution of the oldest node. -/
theorem internals_view (hs : Sound lay s) (hr : lay.region m = some r)
    {I : List OperaInfo → Content → Prop}
    (hI : ∀ q f q' g, I q f → UnlockedInit q → QueueStep (lay.area m r) q f q' g → I q' g)
    (h : ReflTransGen (Internal Op.Partial) s s') (hi : I (s.modInfo m).operaInfo (s.view r)) :
    I (s'.modInfo m).operaInfo (s'.view r) := by
  induction h with
  | refl => exact hi
  | tail hrest hstep ih =>
    have hs' := hs.internals hrest
    exact hI _ _ _ _ ih (hs'.wf.unlockedInit m) (hs'.queueStep hr hstep)

/-- A synchronous HAL call for another module does not touch the area. -/
theorem halIssue_view (hr : lay.region m = some r) {m' : ModuleId} {r' : Region pf}
    (hr' : lay.region m' = some r') (hm : m' ≠ m) {op : Op} {addr len a n : Nat} {hret : HalRet}
    (h : halIssue pf s r'.devId op addr len false .ok = some (s', hret)) (hn : 0 < n)
    (hop : ∀ p, op.Covers p → InRange (physAddr a) n p) (hlo : (lay.area m' r').lo ≤ a)
    (hhi : a + n ≤ (lay.area m' r').hi) {x : Nat} (hx : (lay.area m r).Mem x) :
    s'.view r x = s.view r x ∧ s'.modInfo = s.modInfo := by
  rcases Norflash.halIssue_sync h with ⟨rfl, -⟩ | ⟨-, -, rfl⟩
  · exact ⟨rfl, rfl⟩
  · refine ⟨?_, rfl⟩
    simp only [FlashApi.view, FlashApi.setFlash]
    by_cases hdev : r'.devId = r.devId
    · rw [hdev, Function.update_self, Op.apply_apply]
      refine Op.byteAt_of_not_covers (fun hcov => ?_) _
      exact Layout.not_mem_of_ne hr hr' hm hdev hx
        (Layout.region_of_inRange hn hlo hhi (hop _ hcov)) rfl
    · rw [Function.update_of_ne (Ne.symm hdev)]

/-- A call that does not modify the module, seen from the module: what the execution of the oldest
node keeps, the call keeps. -/
theorem call_view (hs : Sound lay s) (hr : lay.region m = some r)
    {I : List OperaInfo → Content → Prop}
    (hI : ∀ q f q' g, I q f → UnlockedInit q → QueueStep (lay.area m r) q f q' g → I q' g)
    {e : Event} {ret : ApiRet} (he : e.Conforms lay) (hhal : HalOk s e) (ht : e.target ≠ some m)
    (h : Norflash.call pf s e = some (s', ret)) (hi : I (s.modInfo m).operaInfo (s.view r)) :
    I (s'.modInfo m).operaInfo (s'.view r) := by
  have hstay : ∀ s₁ : FlashApi, I (s₁.modInfo m).operaInfo (s₁.view r) →
      UnlockedInit (s₁.modInfo m).operaInfo →
      (∀ x, (lay.area m r).Mem x → s'.view r x = s₁.view r x) →
      (s'.modInfo m).operaInfo = (s₁.modInfo m).operaInfo →
      I (s'.modInfo m).operaInfo (s'.view r) := fun s₁ h₁ hu hv hq =>
    hI _ _ _ _ h₁ hu (hq ▸ .stay hv)
  cases e with
  | register m' d base len block sector page bufferLen cb =>
    obtain ⟨rfl, -⟩ : _ = s' ∧ _ = ret := by
      simpa only [Norflash.call, Option.some.injEq, Prod.ext_iff] using h
    have hu := hs.wf.unlockedInit m
    have hnil := hs.wf.unregistered m
    unfold norflashApiRegister at hstay ⊢
    split_ifs at hstay ⊢ with h₁ h₂ h₃
    · exact hi
    · exact hi
    · exact hi
    · refine hstay s hi hu (fun _ _ => rfl) ?_
      by_cases hm : m' = m
      · subst hm
        simp [FlashApi.setModule, hnil (by simpa using h₃)]
      · simp [FlashApi.setModule, Function.update_of_ne (Ne.symm hm)]
  | erase m' addr len async polls =>
    have hm : m' ≠ m := by
      rintro rfl
      exact ht rfl
    rcases norflashApiErase_cases h with ⟨-, rfl⟩ | ⟨hchk, ⟨-, p, q, ok, hadd, rfl, -⟩ |
      ⟨-, s₁, hret, hdrain, hcall, -⟩⟩
    · exact hi
    · refine hstay s hi (hs.wf.unlockedInit m) (fun _ _ => rfl) ?_
      simp [FlashApi.setModule, FlashApi.setPools, Function.update_of_ne (Ne.symm hm)]
    · obtain ⟨r', hr', hmat, hdvd, hlen, hlo, hhi⟩ := hs.erase_args he hchk
      have hpos : 0 < len := by
        rcases hlen with rfl | rfl
        · exact r'.sectorLen_pos
        · exact r'.blockLen_pos
      have hint := syncDrain_internal (P := Op.Partial) hs.wf hdrain
      rw [hmat.devId] at hcall
      have hview := fun x hx =>
        halIssue_view (x := x) hr hr' hm hcall hpos (fun _ h => h) hlo hhi hx
      refine hstay s₁ (hs.internals_view hr hI hint hi) ((hs.wf.internals hint).unlockedInit m)
        (fun x hx => (hview x hx).1) ?_
      rcases Norflash.halIssue_sync hcall with ⟨rfl, -⟩ | ⟨-, -, rfl⟩ <;> rfl
  | write m' addr buffer len async polls =>
    have hm : m' ≠ m := by
      rintro rfl
      exact ht rfl
    rcases norflashApiWrite_cases h with ⟨-, rfl⟩ | ⟨hchk, ⟨-, p, q, ok, hadd, rfl, -⟩ |
      ⟨-, s₁, hret, hdrain, hcall, -⟩⟩
    · exact hi
    · refine hstay s hi (hs.wf.unlockedInit m) (fun _ _ => rfl) ?_
      simp [FlashApi.setModule, FlashApi.setPools, Function.update_of_ne (Ne.symm hm)]
    · obtain ⟨r', hr', hmat, hpos, -, hlo, hhi⟩ := hs.write_args he.1 he.2 hchk
      have hint := syncDrain_internal (P := Op.Partial) hs.wf hdrain
      rw [hmat.devId] at hcall
      have hview := fun x hx =>
        halIssue_view (x := x) hr hr' hm hcall hpos (fun _ h => h) hlo hhi hx
      refine hstay s₁ (hs.internals_view hr hI hint hi) ((hs.wf.internals hint).unlockedInit m)
        (fun x hx => (hview x hx).1) ?_
      rcases Norflash.halIssue_sync hcall with ⟨rfl, -⟩ | ⟨-, -, rfl⟩ <;> rfl
  | flush polls ans =>
    simp only [Norflash.call, Option.map_eq_some_iff, Prod.mk.injEq] at h
    obtain ⟨⟨s₁, b⟩, hflush, rfl, -⟩ := h
    exact hs.internals_view hr hI (norflashApiFlush_internal hs.wf hhal hflush) hi
  | flushDisable cb =>
    simp only [Norflash.call, norflashApiFlushDisable, Option.some.injEq, Prod.mk.injEq] at h
    rw [if_neg (by simp [hs.wf.inited])] at h
    exact h.1 ▸ hi
  | flushEnable =>
    simp only [Norflash.call, norflashApiFlushEnable, Option.some.injEq, Prod.mk.injEq] at h
    rw [if_neg (by simp [hs.wf.inited])] at h
    exact h.1 ▸ hi

end Sound

/-! ### The board -/

/-- The user data area of the board. -/
def userdataRegion : Region board where
  devId := .id0
  base := 0x3C700000
  len := 0x20000
  blockLen := 0x8000
  sectorLen := 0x1000
  pageLen := 0x100
  sectorLen_eq := rfl
  sectorLen_pos := by decide
  sectorLen_dvd := by decide
  blockLen_pos := by decide
  dvd_blockLen := by decide
  blockLen_lt := by decide
  fits := by decide
  total_le := by decide

/-- A memory map with the user data area only. -/
def boardLayout : Layout board where
  region m := if m = .userdata then some userdataRegion else none
  window _ := 0x3C700000 / addrSpan
  disjoint := by
    intro m m' r r' hr hr' hne
    split_ifs at hr hr' with h h'
    exact absurd (h.trans h'.symm) hne

end EarbudFirmware.Norflash
