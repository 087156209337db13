import EarbudFirmware.Ota.Specs

/-!
# The upgrade log

The log is one sector: a head with the random code of the transfer, and entries for the sizes that
have been verified. When all entries are used, the head is saved, the sector is erased, and head and
first entry are programmed again. The power may fail between two of these operations.

## Main definitions

* `LogOp`, `logOps` — the flash operations of `ota_upgradeSize_log`
* `Transfer` — the log of a transfer between two calls, also behind restarts
* `rebooted` — the log behind a restart in the middle of a call
* `Located` — what `get_upgradeSize_log` finds
* `InGap` — the restart is between erasing the sector and programming its head

## Main results

* `searchUpgradeSize_spec` — the binary search ends at the border of the used entries
* `upgradeSizeLog_eq_some` — `ota_upgradeSize_log` carries out its operations
* `transfer_of_start`, `Transfer.upgradeSizeLog` — the log of the service is the log of a transfer
* `resumes_at_last` — what is found behind a restart
-/

namespace EarbudFirmware.Ota

open NorMemory (Content Op InRange overlay)

/-! ### Specification -/

/-- A flash operation on the log. -/
inductive LogOp where
  | eraseSector
  | programHead (head : Content)
  | programEntry (i size : Nat)

/-- The operation in the flash. -/
def LogOp.op : LogOp → Op
  | .eraseSector => .erase 0 sectorSize
  | .programHead head => .program 0 logHeadSize head
  | .programEntry i size => .program (logHeadSize + 4 * i) 4 (leByte size)

/-- The log behind operations. -/
def applyLog (ops : List LogOp) (log : Content) : Content :=
  ops.foldl (fun log op => op.op.apply log) log

/-- The flash operations of `ota_upgradeSize_log`. -/
def logOps (log : Content) (iLog size : Nat) : List LogOp :=
  if logEntries ≤ add32 iLog 1 then [.eraseSector, .programHead log, .programEntry 0 size]
  else [.programEntry (add32 iLog 1) size]

/-- The index behind `ota_upgradeSize_log`. -/
def nextILog (iLog : Nat) : Nat := if logEntries ≤ add32 iLog 1 then 0 else add32 iLog 1

/-- The index that `get_upgradeSize_log` sets. -/
def foundILog (log : Content) : Nat := (lastEntry log).getD 0xFFFFFFFF

/-- The log when the device restarts behind `k` operations of a call. -/
def rebooted (log : Content) (iLog size k : Nat) : Content :=
  applyLog ((logOps log iLog size).take k) log

/-- The sizes whose entries have been programmed behind `k` operations of a call. -/
def completed (log : Content) (iLog size k : Nat) : List Nat :=
  if (logOps log iLog size).length ≤ k then [size] else []

/-- The restart is between erasing the sector and programming its head. -/
def InGap (iLog k : Nat) : Prop := logEntries ≤ add32 iLog 1 ∧ k = 1

/-- The random code is stored in the log. -/
def HasCode (code log : Content) : Prop := ∀ i < 32, log i = code i

/-- The log of a transfer between two calls of `ota_upgradeSize_log`, with `i_log` and all sizes
that have been logged. A transfer goes on behind a restart if a breakpoint is found. -/
inductive Transfer (code : Content) : Content → Nat → List Nat → Prop where
  | start {log : Content} (hcode : HasCode code log)
      (hempty : ∀ i, logHeadSize ≤ i → i < sectorSize → log i = 0xFF) :
      Transfer code log 0xFFFFFFFF []
  | log {log : Content} {iLog : Nat} {sizes : List Nat} (h : Transfer code log iLog sizes)
      {size : Nat} (hsize : size < emptyEntry) :
      Transfer code (applyLog (logOps log iLog size) log) (nextILog iLog) (sizes ++ [size])
  | resume {log : Content} {iLog : Nat} {sizes : List Nat} (h : Transfer code log iLog sizes)
      {size : Nat} (hsize : size < emptyEntry) (k : Nat)
      (hbreak : logBreakPoint (rebooted log iLog size k) ≠ 0) :
      Transfer code (rebooted log iLog size k) (foundILog (rebooted log iLog size k))
        (sizes ++ completed log iLog size k)

/-- What `get_upgradeSize_log` finds in a log that the sizes have been written to: the last one, or
0 when there is no entry. The next size goes to the first entry that is erased, or to an erased
sector when there is none. -/
structure Located (log : Content) (e : Env) (sizes : List Nat) : Prop where
  breakPoint : (∀ i < logEntries, upgradeSize log i = emptyEntry) ∧ e.breakPoint = 0 ∨
    (∃ i < logEntries, upgradeSize log i ≠ emptyEntry) ∧ sizes.getLast? = some e.breakPoint
  next : (∃ n < logEntries, (∀ i < n, upgradeSize log i ≠ emptyEntry) ∧
      (∀ i, logHeadSize + 4 * n ≤ i → i < sectorSize → log i = 0xFF) ∧
      ∀ size, logOps log e.iLog size = [.programEntry n size]) ∨
    (∀ i < logEntries, upgradeSize log i ≠ emptyEntry) ∧
      ∀ size, logOps log e.iLog size =
        [.eraseSector, .programHead log, .programEntry 0 size]

variable {code log log' : Content} {iLog n size k : Nat} {sizes : List Nat}

/-! ### The search -/

/-- The first `n` entries are used, the others are not. -/
structure UsedPrefix (log : Content) (n : Nat) : Prop where
  le : n ≤ logEntries
  used : ∀ i < n, upgradeSize log i ≠ emptyEntry
  empty : ∀ i, n ≤ i → i < logEntries → upgradeSize log i = emptyEntry

/-- The binary search ends at the last used entry or behind it. -/
theorem searchUpgradeSize_spec (h : UsedPrefix log n) (hpos : 0 < n) {fuel left right : Nat}
    (hleft : left ≤ n) (hright : n ≤ right + 1) (hin : right < logEntries) (hlt : left < logEntries)
    (hfuel : right < left + fuel) :
    searchUpgradeSize log fuel left right + 1 = n ∨
      searchUpgradeSize log fuel left right = n ∧ n < logEntries := by
  induction fuel generalizing left right with
  | zero =>
    have heq : left = n := by omega
    exact .inr ⟨heq, heq ▸ hlt⟩
  | succ fuel ih =>
    unfold searchUpgradeSize
    by_cases hmore : left < right
    · rw [if_pos hmore]
      dsimp only
      by_cases hmid : upgradeSize log ((left + right) / 2) = emptyEntry
      · -- the border is not behind the middle
        have hge : n ≤ (left + right) / 2 := by
          by_contra hlt'
          exact h.used _ (Nat.lt_of_not_le hlt') hmid
        rw [if_pos hmid]
        exact ih hleft (by omega) (by omega) hlt (by omega)
      · have hlt' : (left + right) / 2 < n := by
          by_contra hge
          exact hmid (h.empty _ (Nat.le_of_not_lt hge) (by omega))
        rw [if_neg hmid]
        exact ih (by omega) hright hin (by omega) (by omega)
    · rw [if_neg hmore]
      rcases Nat.lt_or_ge left n with hlt' | hge
      · exact .inl (by omega)
      · have heq : left = n := Nat.le_antisymm hleft hge
        exact .inr ⟨heq, heq ▸ hlt⟩

/-- The entry that is found is the last used one. -/
theorem UsedPrefix.lastEntry_eq (h : UsedPrefix log n) :
    lastEntry log = if n = 0 then none else some (n - 1) := by
  have hentries : 0 < logEntries := by decide
  unfold lastEntry
  dsimp only
  obtain rfl | hpos := Nat.eq_zero_or_pos n
  · have hzero := h.empty 0 (Nat.le_refl 0) hentries
    rw [if_neg (not_not.2 hzero), if_neg (not_not.2 hzero), if_pos rfl]
  · rw [if_pos (h.used 0 hpos), if_neg (Nat.pos_iff_ne_zero.1 hpos)]
    have hle : n ≤ logEntries - 1 + 1 := by
      have := h.le
      omega
    obtain hlast | ⟨hbehind, hlt⟩ := searchUpgradeSize_spec h hpos (Nat.zero_le n) hle (by omega)
      hentries (show logEntries - 1 < 0 + logEntries by omega)
    · rw [if_pos (h.used _ (by omega))]
      exact congrArg some (by omega)
    · rw [hbehind, if_neg (not_not.2 (h.empty n (Nat.le_refl n) hlt)),
        if_neg (Nat.pos_iff_ne_zero.1 hpos)]

/-! ### The operations -/

theorem upgradeSize_of_blank {i : Nat}
    (h : ∀ j, logHeadSize + 4 * i ≤ j → j < logHeadSize + 4 * i + 4 → log j = 0xFF) :
    upgradeSize log i = emptyEntry := by
  unfold upgradeSize
  rw [le_congr (d := fun _ => 0xFF) fun j hj => h j hj.1 hj.2]
  simp only [le]
  decide

/-- The log holds the random code and `n` entries, the last of them for the last of the sizes. -/
structure Holds (code log : Content) (n : Nat) (sizes : List Nat) : Prop where
  le : n ≤ logEntries
  hasCode : HasCode code log
  used : ∀ i < n, upgradeSize log i ≠ emptyEntry
  blank : ∀ i, logHeadSize + 4 * n ≤ i → i < sectorSize → log i = 0xFF
  last : 0 < n → sizes.getLast? = some (upgradeSize log (n - 1))

/-- The index of the last of `n` entries, as the service keeps it. -/
def lastILog (n : Nat) : Nat := if n = 0 then 0xFFFFFFFF else n - 1

theorem add32_lastILog (hle : n ≤ logEntries) : add32 (lastILog n) 1 = n := by
  unfold add32 lastILog logEntries at *
  split_ifs <;> omega

theorem lastILog_succ (n : Nat) : lastILog (n + 1) = n := if_neg (Nat.succ_ne_zero n)

theorem Holds.usedPrefix (h : Holds code log n sizes) : UsedPrefix log n where
  le := h.le
  used := h.used
  empty i hle hlt := by
    refine upgradeSize_of_blank fun j hlo hhi => h.blank j ?_ ?_
    · omega
    · unfold logHeadSize logEntries sectorSize at *
      omega

/-- A byte behind an operation that programs a range. -/
theorem program_apply {a len : Nat} {d : Content} (y : Nat) :
    (Op.program a len d).apply log y = if InRange a len y then log y &&& d (y - a) else log y := rfl

/-- An entry is programmed. -/
theorem Holds.programEntry (h : Holds code log n sizes) (hlt : n < logEntries)
    (hsize : size < emptyEntry) :
    Holds code ((LogOp.programEntry n size).op.apply log) (n + 1) (sizes ++ [size]) := by
  have hfar : ∀ y, ¬InRange (logHeadSize + 4 * n) 4 y →
      (LogOp.programEntry n size).op.apply log y = log y := fun y hy => if_neg hy
  have hother : ∀ i, i ≠ n → upgradeSize ((LogOp.programEntry n size).op.apply log) i =
      upgradeSize log i := fun i hi => le_congr fun y hy => hfar y fun hy' => by
    have := hy.1
    have := hy.2
    have := hy'.1
    have := hy'.2
    omega
  have hnew : upgradeSize ((LogOp.programEntry n size).op.apply log) n = size := by
    refine (le_leByte (v := size) (k := 0) fun i hi => ?_).trans ?_
    · have hin : InRange (logHeadSize + 4 * n) 4 (logHeadSize + 4 * n + i) :=
        ⟨by omega, by omega⟩
      have hblank : log (logHeadSize + 4 * n + i) = 0xFF := h.blank _ (by omega) (by
        unfold logHeadSize logEntries sectorSize at *
        omega)
      refine (if_pos hin).trans ?_
      rw [hblank, NorMemory.erased_and, Nat.add_sub_cancel_left, Nat.zero_add]
    · unfold emptyEntry at hsize
      rw [pow_zero, Nat.div_one]
      exact Nat.mod_eq_of_lt (by omega)
  refine ⟨hlt, fun i hi => ?_, fun i hi => ?_, fun i hlo hhi => ?_, fun _ => ?_⟩
  · refine (hfar i fun hin => ?_).trans (h.hasCode i hi)
    have := hin.1
    unfold logHeadSize at this
    omega
  · obtain rfl | hne := Decidable.eq_or_ne i n
    · rw [hnew]
      exact Nat.ne_of_lt hsize
    · rw [hother i hne]
      exact h.used i (by omega)
  · refine (hfar i fun hin => ?_).trans (h.blank i (by omega) hhi)
    have := hin.2
    omega
  · rw [List.getLast?_concat, Nat.add_sub_cancel, hnew]

/-- The sector is erased. -/
def Erased (log : Content) : Prop := ∀ i < sectorSize, log i = 0xFF

theorem erased_eraseSector (log : Content) : Erased (LogOp.eraseSector.op.apply log) :=
  fun i hi => if_pos ⟨Nat.zero_le i, by omega⟩

theorem Erased.usedPrefix (h : Erased log) : UsedPrefix log 0 where
  le := Nat.zero_le _
  used i hi := absurd hi (Nat.not_lt_zero i)
  empty i _ hlt := upgradeSize_of_blank fun j _ hhi => h j (by
    unfold logHeadSize logEntries sectorSize at *
    omega)

/-- The head is programmed into an erased sector. -/
theorem Erased.programHead (h : Erased log) {head : Content} (hcode : HasCode code head)
    (sizes : List Nat) : Holds code ((LogOp.programHead head).op.apply log) 0 sizes where
  le := Nat.zero_le _
  hasCode i hi := by
    have hin : InRange 0 logHeadSize i := ⟨Nat.zero_le i, by
      unfold logHeadSize
      omega⟩
    refine (if_pos hin).trans ?_
    rw [h i (by unfold sectorSize; omega), NorMemory.erased_and, Nat.sub_zero]
    exact hcode i hi
  used i hi := absurd hi (Nat.not_lt_zero i)
  blank i hlo hhi := (if_neg fun hin => by
    have := hin.2
    omega).trans (h i hhi)
  last hpos := absurd hpos (Nat.lt_irrefl 0)

/-! ### Restarts -/

theorem logOps_of_lt (hlt : n < logEntries) (log : Content) (size : Nat) :
    logOps log (lastILog n) size = [.programEntry n size] := by
  unfold logOps
  rw [add32_lastILog (Nat.le_of_lt hlt), if_neg (Nat.not_le_of_lt hlt)]

theorem logOps_of_full (log : Content) (size : Nat) :
    logOps log (lastILog logEntries) size =
      [.eraseSector, .programHead log, .programEntry 0 size] := by
  unfold logOps
  rw [add32_lastILog (Nat.le_refl _), if_pos (Nat.le_refl _)]

/-- A whole call. -/
theorem Holds.call (h : Holds code log n sizes) (hsize : size < emptyEntry) :
    Holds code (applyLog (logOps log (lastILog n) size) log) (nextILog (lastILog n) + 1)
      (sizes ++ [size]) := by
  unfold nextILog
  rw [add32_lastILog h.le]
  obtain hlt | rfl := Nat.lt_or_eq_of_le h.le
  · rw [logOps_of_lt hlt, if_neg (Nat.not_le_of_lt hlt)]
    exact h.programEntry hlt hsize
  · rw [logOps_of_full, if_pos (Nat.le_refl _)]
    exact ((erased_eraseSector log).programHead h.hasCode sizes).programEntry (by decide) hsize

/-- A restart in a call. -/
theorem Holds.rebooted (h : Holds code log n sizes) (hsize : size < emptyEntry) (k : Nat) :
    (¬InGap (lastILog n) k ∧ ∃ n', Holds code (rebooted log (lastILog n) size k) n'
      (sizes ++ completed log (lastILog n) size k)) ∨
    (InGap (lastILog n) k ∧ Erased (Ota.rebooted log (lastILog n) size k)) := by
  unfold Ota.rebooted completed InGap
  rw [add32_lastILog h.le]
  obtain hlt | rfl := Nat.lt_or_eq_of_le h.le
  · have hlen : [LogOp.programEntry n size].length = 1 := rfl
    rw [logOps_of_lt hlt, hlen]
    refine .inl ⟨fun hgap => absurd hgap.1 (Nat.not_le_of_lt hlt), ?_⟩
    obtain rfl | hpos := Nat.eq_zero_or_pos k
    · exact ⟨n, by rwa [if_neg (by decide), List.append_nil]⟩
    · have hone : 1 ≤ k := hpos
      rw [List.take_of_length_le hpos, if_pos hone]
      exact ⟨n + 1, h.programEntry hlt hsize⟩
  · -- the log starts again behind its head
    have hlen : [LogOp.eraseSector, .programHead log, .programEntry 0 size].length = 3 := rfl
    rw [logOps_of_full, hlen]
    have herased := erased_eraseSector log
    have hhead := herased.programHead h.hasCode sizes
    match k with
    | 0 => exact .inl ⟨fun hgap => absurd hgap.2 (by decide), logEntries, by
        rwa [if_neg (by decide), List.append_nil]⟩
    | 1 => exact .inr ⟨⟨Nat.le_refl _, rfl⟩, herased⟩
    | 2 => exact .inl ⟨fun hgap => absurd hgap.2 (by decide), 0, by
        rwa [if_neg (by decide), List.append_nil]⟩
    | k + 3 =>
      refine .inl ⟨fun hgap => absurd hgap.2 (by omega), 1, ?_⟩
      have hall : 3 ≤ k + 3 := Nat.le_add_left 3 k
      rw [List.take_of_length_le hall, if_pos hall]
      exact hhead.programEntry (by decide) hsize

theorem UsedPrefix.foundILog_eq (h : UsedPrefix log n) : foundILog log = lastILog n := by
  unfold foundILog lastILog
  rw [h.lastEntry_eq]
  split_ifs <;> rfl

theorem UsedPrefix.logBreakPoint_eq (h : UsedPrefix log n) :
    logBreakPoint log = if n = 0 then 0 else upgradeSize log (n - 1) := by
  unfold logBreakPoint
  rw [h.lastEntry_eq]
  split_ifs <;> rfl

/-- The log of a transfer. -/
theorem Transfer.holds (h : Transfer code log iLog sizes) :
    ∃ n, Holds code log n sizes ∧ iLog = lastILog n := by
  induction h with
  | start hcode hempty =>
    exact ⟨0, ⟨Nat.zero_le _, hcode, fun i hi => absurd hi (Nat.not_lt_zero i), hempty,
      fun hpos => absurd hpos (Nat.lt_irrefl 0)⟩, rfl⟩
  | log h hsize ih =>
    obtain ⟨n, hn, rfl⟩ := ih
    exact ⟨_, hn.call hsize, (lastILog_succ _).symm⟩
  | resume h hsize k hbreak ih =>
    obtain ⟨n, hn, rfl⟩ := ih
    obtain ⟨-, n', hn'⟩ | ⟨-, herased⟩ := hn.rebooted hsize k
    · exact ⟨n', hn', hn'.usedPrefix.foundILog_eq⟩
    · exact absurd (herased.usedPrefix.logBreakPoint_eq.trans (if_pos rfl)) hbreak

/-- What is found in a log with `n` entries. -/
theorem located_of_usedPrefix (h : UsedPrefix log n)
    (hblank : ∀ i, logHeadSize + 4 * n ≤ i → i < sectorSize → log i = 0xFF)
    (hlast : 0 < n → sizes.getLast? = some (upgradeSize log (n - 1))) (e : Env) :
    Located log (getUpgradeSizeLog log e) sizes where
  breakPoint := by
    show _ ∧ logBreakPoint log = 0 ∨ _ ∧ sizes.getLast? = some (logBreakPoint log)
    rw [h.logBreakPoint_eq]
    obtain rfl | hpos := Nat.eq_zero_or_pos n
    · exact .inl ⟨fun i hi => h.empty i (Nat.zero_le i) hi, if_pos rfl⟩
    · rw [if_neg (Nat.pos_iff_ne_zero.1 hpos)]
      have hle := h.le
      exact .inr ⟨⟨n - 1, by omega, h.used _ (by omega)⟩, hlast hpos⟩
  next := by
    show (∃ m < logEntries, _ ∧ _ ∧ ∀ size, logOps log (foundILog log) size = _) ∨
      _ ∧ ∀ size, logOps log (foundILog log) size = _
    rw [h.foundILog_eq]
    obtain hlt | rfl := Nat.lt_or_eq_of_le h.le
    · exact .inl ⟨n, hlt, h.used, hblank, logOps_of_lt hlt log⟩
    · exact .inr ⟨h.used, logOps_of_full log⟩

/-- Behind a restart at any point, `get_upgradeSize_log` finds the size that was logged last, or no
size, and where the next one goes. The random code of the transfer is in the log, but for a restart
between erasing the sector and programming its head: there the whole sector is erased. -/
theorem resumes_at_last (h : Transfer code log iLog sizes) (hsize : size < emptyEntry) (k : Nat)
    (e : Env) :
    Located (rebooted log iLog size k) (getUpgradeSizeLog (rebooted log iLog size k) e)
      (sizes ++ completed log iLog size k) ∧
    (¬InGap iLog k → HasCode code (rebooted log iLog size k)) ∧
    (InGap iLog k → Erased (rebooted log iLog size k)) := by
  obtain ⟨n, hn, rfl⟩ := h.holds
  obtain ⟨hgap, n', hn'⟩ | ⟨hgap, herased⟩ := hn.rebooted hsize k
  · exact ⟨located_of_usedPrefix hn'.usedPrefix hn'.blank hn'.last e, fun _ => hn'.hasCode,
      fun hin => absurd hin hgap⟩
  · exact ⟨located_of_usedPrefix herased.usedPrefix (fun i _ hi => herased i hi)
      (fun hpos => absurd hpos (Nat.lt_irrefl 0)) e, fun hnot => absurd hgap hnot,
      fun _ => herased⟩

/-! ### The log of the service -/

section Service

variable {b : Build} {s s' s₁ s₂ : OtaState} {m m' : Mem} {p : Packet} {r : Reads}
  {out : List Output}

theorem appFlashProgram_eq_some {x : FlashModule} {a len : Nat} {d : Content}
    (h : appFlashProgram b (some x) a d len m = some m') : m' = m.apply x (.program a len d) := by
  unfold appFlashProgram at h
  rw [Option.bind_some] at h
  split_ifs at h
  exact (Option.some.inj h).symm

theorem appFlashSectorErase_eq_some {x : FlashModule} {a : Nat}
    (h : appFlashSectorErase b (some x) a m = some m') : m' = m.apply x (.erase a sectorSize) := by
  unfold appFlashSectorErase at h
  rw [Option.bind_some] at h
  split_ifs at h
  exact (Option.some.inj h).symm

/-- The content of a module behind an operation on it. -/
theorem Mem.flash_apply_self (m : Mem) (x : FlashModule) (op : Op) :
    (m.apply x op).flash x = op.apply (m.flash x) :=
  Function.update_self _ _ _

/-- `ota_upgradeSize_log` carries out its operations. -/
theorem upgradeSizeLog_eq_some (h : upgradeSizeLog b s = some s') :
    s'.env.iLog = nextILog s.env.iLog ∧
      s'.mem.flash .upgradeLog = applyLog
        (logOps (s.mem.flash .upgradeLog) s.env.iLog s.env.alreadyReceivedDataSizeOfImage)
        (s.mem.flash .upgradeLog) := by
  unfold upgradeSizeLog at h
  unfold nextILog logOps
  dsimp only at h
  split_ifs at h ⊢ with hfull
  · obtain ⟨m₁, h₁, h⟩ := Option.bind_eq_some_iff.1 h
    obtain ⟨m₂, h₂, h⟩ := Option.bind_eq_some_iff.1 h
    obtain ⟨m₃, h₃, h⟩ := Option.bind_eq_some_iff.1 h
    obtain rfl := Option.some.inj h
    obtain ⟨hflash, hbuf⟩ := appFlashRead_eq_some h₁
    obtain ⟨m₄, h₄, h₂⟩ := Option.bind_eq_some_iff.1 h₂
    rw [Nat.zero_mul] at h₂ h₄
    have hhead : ∀ log : Content, (Op.program 0 logHeadSize m₁.dataBufferForBurning).apply log =
        (Op.program 0 logHeadSize (s.mem.flash .upgradeLog)).apply log := by
      intro log
      funext y
      by_cases hy : InRange 0 logHeadSize y
      · rw [program_apply, program_apply, if_pos hy, if_pos hy, Nat.sub_zero,
          hbuf y (by have := hy.2; omega), Nat.zero_add]
      · rw [program_apply, program_apply, if_neg hy, if_neg hy]
    refine ⟨rfl, ?_⟩
    show m₃.flash .upgradeLog = _
    rw [appFlashProgram_eq_some h₃, appFlashProgram_eq_some h₂, appFlashSectorErase_eq_some h₄,
      Mem.flash_apply_self, Mem.flash_apply_self, Mem.flash_apply_self, hflash, hhead]
    rfl
  · obtain ⟨m₁, h₁, h⟩ := Option.bind_eq_some_iff.1 h
    obtain rfl := Option.some.inj h
    refine ⟨rfl, ?_⟩
    show m₁.flash .upgradeLog = _
    rw [appFlashProgram_eq_some h₁, Mem.flash_apply_self]
    rfl

/-- A verified segment is logged. -/
theorem Transfer.upgradeSizeLog (h : Transfer code (s.mem.flash .upgradeLog) s.env.iLog sizes)
    (hlog : Ota.upgradeSizeLog b s = some s')
    (hsize : s.env.alreadyReceivedDataSizeOfImage < emptyEntry) :
    Transfer code (s'.mem.flash .upgradeLog) s'.env.iLog
      (sizes ++ [s.env.alreadyReceivedDataSizeOfImage]) := by
  obtain ⟨hiLog, hflash⟩ := upgradeSizeLog_eq_some hlog
  rw [hiLog, hflash]
  exact h.log hsize

/-- `ota_update_start_message` programs two fields of the head. -/
theorem updateStartMessage_eq_some {start : Content} (h : updateStartMessage b start s = some s') :
    s'.env = s.env ∧ ∀ y, ¬InRange 32 8 y →
      s'.mem.flash .upgradeLog y = s.mem.flash .upgradeLog y := by
  unfold updateStartMessage at h
  split_ifs at h
  · obtain ⟨m₁, h₁, h⟩ := Option.bind_eq_some_iff.1 h
    obtain ⟨m₂, h₂, h⟩ := Option.bind_eq_some_iff.1 h
    obtain rfl := Option.some.inj h
    refine ⟨rfl, fun y hy => ?_⟩
    have hsize : ¬InRange 32 4 y := fun hin => hy ⟨hin.1, by have := hin.2; omega⟩
    have hcrc : ¬InRange 36 4 y := fun hin =>
      hy ⟨by have := hin.1; omega, by have := hin.2; omega⟩
    show m₂.flash .upgradeLog y = _
    rw [appFlashProgram_eq_some h₂, appFlashProgram_eq_some h₁, Mem.flash_apply_self,
      Mem.flash_apply_self, program_apply, program_apply, if_neg hcrc, if_neg hsize]
  · obtain rfl := Option.some.inj h
    exact ⟨rfl, fun _ _ => rfl⟩

/-- `ota_randomCode_log`, and then the start of the transfer. -/
theorem transfer_of_start (hcode : randomCodeLog b code s = some s₁)
    (hresume : s₁.env.resumeAtBreakpoint = false) (hmagic : p.HasMagicCode)
    (hstart : handleStart b r s₁ p = some (s₂, out)) :
    Transfer code (s₂.mem.flash .upgradeLog) s₂.env.iLog [] := by
  obtain ⟨m₁, h₁, hcode⟩ := Option.bind_eq_some_iff.1 hcode
  obtain ⟨m₂, h₂, h₁⟩ := Option.bind_eq_some_iff.1 h₁
  obtain rfl := Option.some.inj hcode
  rw [Nat.zero_mul] at h₁ h₂
  have hlog : m₁.flash .upgradeLog = (Op.program 0 32 code).apply
      ((Op.erase 0 sectorSize).apply (s.mem.flash .upgradeLog)) := by
    rw [appFlashProgram_eq_some h₁, appFlashSectorErase_eq_some h₂, Mem.flash_apply_self,
      Mem.flash_apply_self]
  have herased := erased_eraseSector (s.mem.flash .upgradeLog)
  have hbytes : ∀ i < sectorSize, m₁.flash .upgradeLog i = if i < 32 then code i else 0xFF := by
    intro i hi
    rw [hlog, program_apply]
    by_cases hin : i < 32
    · rw [if_pos ⟨Nat.zero_le i, by omega⟩, if_pos hin, Nat.sub_zero]
      exact (congrArg (· &&& code i) (herased i hi)).trans (NorMemory.erased_and _)
    · rw [if_neg (fun h => hin (by have := h.2; omega)), if_neg hin]
      exact herased i hi
  unfold handleStart at hstart
  rw [if_pos hmagic] at hstart
  obtain ⟨s₃, h₃, hstart⟩ := Option.bind_eq_some_iff.1 hstart
  obtain ⟨rfl, -⟩ := Prod.mk.inj (Option.some.inj hstart)
  obtain ⟨henv, hfar⟩ := updateStartMessage_eq_some h₃
  have hiLog : s₃.env.iLog = 0xFFFFFFFF := by
    rw [henv]
    exact if_neg (Bool.eq_false_iff.1 hresume)
  rw [hiLog]
  refine .start (fun i hi => ?_) fun i hlo hhi => ?_
  · refine (hfar i fun hin => ?_).trans ((hbytes i (by unfold sectorSize; omega)).trans (if_pos hi))
    have := hin.1
    omega
  · unfold logHeadSize at hlo
    refine (hfar i fun hin => ?_).trans ((hbytes i hhi).trans (if_neg (by omega)))
    have := hin.2
    omega

end Service

/-! ### Examples -/

/-- The log of a transfer that has started. -/
def newLog : Content := fun i => if i < logHeadSize then 0 else 0xFF

theorem transfer_newLog : Transfer (fun _ => 0) newLog 0xFFFFFFFF [] :=
  .start (fun i hi => if_pos (by unfold logHeadSize; omega))
    fun i hlo _ => if_neg (Nat.not_lt_of_le hlo)

/-- A restart behind the first entry. -/
theorem resumes_at_last_newLog :
    Located (rebooted newLog 0xFFFFFFFF 256 1)
      (getUpgradeSizeLog (rebooted newLog 0xFFFFFFFF 256 1) .initial) [256] ∧
    HasCode (fun _ => 0) (rebooted newLog 0xFFFFFFFF 256 1) := by
  have h := resumes_at_last transfer_newLog (show 256 < emptyEntry by decide) 1 .initial
  exact ⟨h.1, h.2.1 fun hgap => absurd hgap.1 (by decide)⟩

/-- The log with all its first entries used. -/
theorem exists_transfer (n : Nat) (hle : n ≤ logEntries) :
    ∃ log sizes, Transfer (fun _ => 0) log (lastILog n) sizes := by
  induction n with
  | zero => exact ⟨newLog, [], transfer_newLog⟩
  | succ n ih =>
    obtain ⟨log, sizes, h⟩ := ih (by omega)
    have hnext : nextILog (lastILog n) = lastILog (n + 1) := by
      unfold nextILog
      rw [add32_lastILog (by omega), if_neg (by omega), lastILog_succ]
    exact ⟨_, _, hnext ▸ h.log (show 256 < emptyEntry by decide)⟩

/-- A restart behind the erase of a full log does not find the random code. -/
theorem not_hasCode_rebooted :
    ¬∀ (code log : Content) (iLog : Nat) (sizes : List Nat) (size k : Nat) (e : Env),
      Transfer code log iLog sizes → size < emptyEntry →
        Located (rebooted log iLog size k) (getUpgradeSizeLog (rebooted log iLog size k) e)
          (sizes ++ completed log iLog size k) ∧ HasCode code (rebooted log iLog size k) := by
  intro hall
  obtain ⟨log, sizes, h⟩ := exists_transfer logEntries (Nat.le_refl _)
  have hcode := (hall _ _ _ _ 256 1 .initial h (by decide)).2
  have herased : rebooted log (lastILog logEntries) 256 1 0 = 0xFF := by
    unfold rebooted
    rw [logOps_of_full]
    exact erased_eraseSector log 0 (by decide)
  exact absurd (herased.symm.trans (hcode 0 (by decide))) (by decide)

end EarbudFirmware.Ota
