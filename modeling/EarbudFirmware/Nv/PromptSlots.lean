import EarbudFirmware.Lib.Transition
import EarbudFirmware.Nv.Prompt

/-!
# Prompt packages share no flash

The packages of the record have slots of their own, and a new one gets a slot that no other package
uses. Entries that the record has left, and identifiers other than the one that was asked for, can
break this.

## Main definitions

* `SharesNoFlash` — the packages of the record and their slots
* `Separate` — what an event of a run keeps
* `Orderly` — the events that keep it

## Main results

* `separate_along` — along runs of orderly events no packages share flash
* `not_separate` — runs in which they do
-/

namespace EarbudFirmware.Prompt

open Transition

variable (b : PromptBuild)

/-- A slot of the section. -/
def PromptBuild.IsSlot (addr : Nat) : Prop :=
  ∃ k, addr = b.promptStart + k * languagePackageSize ∧ addr + languagePackageSize ≤ b.promptEnd

/-- The record holds a package of the language. -/
def PromptInfo.Holds (p : PromptInfo) (language : UInt8) : Prop :=
  ∃ i < p.num, (p.packageInfo i).id = language

instance (p : PromptInfo) (language : UInt8) : Decidable (p.Holds language) :=
  inferInstanceAs (Decidable (∃ i < p.num, _))

/-- The packages are not too many, and have languages and slots of their own. -/
structure SharesNoFlash (p : PromptInfo) : Prop where
  num_le : p.num ≤ b.localPackageMax
  languages : ∀ i < p.num, ∀ j < p.num, (p.packageInfo i).id = (p.packageInfo j).id → i = j
  isSlot : ∀ i < p.num, b.IsSlot (p.packageInfo i).startAddr
  slots : ∀ i < p.num, ∀ j < p.num,
    (p.packageInfo i).startAddr = (p.packageInfo j).startAddr → i = j

/-- What an event keeps. A download gets a slot of the section that no package of another language
uses, and a lookup finds a package of the record or none. -/
def Separate (s : Prompts) (e : PromptEvent) : Prop :=
  ∀ t, s.step b e = some t → SharesNoFlash b t.info ∧
    match e with
    | .download language => ∀ addr, t.pending = some addr → b.IsSlot addr ∧
        ∀ i < t.info.num, (t.info.packageInfo i).startAddr = addr →
          (t.info.packageInfo i).id = language
    | .lookup language => ∀ r, s.info.getPackageAddr b language false = some r →
        r.2 = 0 ∨ ∃ i < s.info.num, (s.info.packageInfo i).id = language ∧
          (s.info.packageInfo i).startAddr = r.2
    | _ => True

/-- The events that keep it. No entry that has left the record has the language, unless the record
holds it too. Behind the last package there is a slot, which no package uses. The package that has
been downloaded is of the language of the one that is in its slot, and finds an entry. -/
def Orderly (s : Prompts) : PromptEvent → Prop
  | .boot _ => True
  | .lookup language => s.info.Holds language ∨ ∀ i < b.localPackageMax, s.info.num ≤ i →
      (s.info.packageInfo i).id = language → (s.info.packageInfo i).startAddr = 0
  | .download language => s.info.Holds language ∨
      (∀ i < b.localPackageMax, s.info.num ≤ i → (s.info.packageInfo i).id ≠ language) ∧
      (s.info.num < b.localPackageMax →
        (s.info.packageInfo (s.info.num - 1)).startAddr + 2 * languagePackageSize ≤ b.promptEnd ∧
        ∀ i < s.info.num, (s.info.packageInfo i).startAddr ≠
          (s.info.packageInfo (s.info.num - 1)).startAddr + languagePackageSize)
  | .complete id _ =>
      (∀ i < s.info.num, s.pending = some (s.info.packageInfo i).startAddr →
        (s.info.packageInfo i).id = id) ∧
      (s.info.Holds id ∨ s.info.num < b.localPackageMax)
  | .abandon => True

variable {b}

/-! ### Slots -/

theorem PromptBuild.IsSlot.lt {addr : Nat} (h : b.IsSlot addr) : addr < 0x100000000 := by
  obtain ⟨k, -, hend⟩ := h
  have := b.promptEnd_lt
  have : 0 < languagePackageSize := by decide
  omega

theorem PromptBuild.IsSlot.start_le {addr : Nat} (h : b.IsSlot addr) : b.promptStart ≤ addr := by
  obtain ⟨k, rfl, -⟩ := h
  exact Nat.le_add_right _ _

theorem PromptBuild.IsSlot.pos {addr : Nat} (h : b.IsSlot addr) : 0 < addr :=
  Nat.lt_of_lt_of_le b.promptStart_pos h.start_le

theorem PromptBuild.isSlot_nth {k : Nat} (hk : k < b.localPackageMax) :
    b.IsSlot (b.promptStart + k * languagePackageSize) := by
  refine ⟨k, rfl, ?_⟩
  have hle : (k + 1) * languagePackageSize ≤ b.localPackageMax * languagePackageSize :=
    Nat.mul_le_mul_right _ hk
  have := b.room
  rw [Nat.succ_mul] at hle
  omega

/-- A slot does not look like the address of the embedded package. -/
theorem PromptBuild.IsSlot.not_embedded {addr : Nat} (h : b.IsSlot addr) :
    ¬addr % 0x1000000 < b.promptStart % 0x1000000 := by
  obtain ⟨k, rfl, hend⟩ := h
  have hwindow := b.window
  have hsize : 0 < languagePackageSize := by decide
  generalize k * languagePackageSize = d at hend ⊢
  omega

/-- The slot behind a package. -/
theorem PromptInfo.slotBehind_eq {p : PromptInfo}
    (h : b.IsSlot (p.packageInfo (p.num - 1)).startAddr)
    (hend : (p.packageInfo (p.num - 1)).startAddr + 2 * languagePackageSize ≤ b.promptEnd) :
    p.slotBehind b = (p.packageInfo (p.num - 1)).startAddr + languagePackageSize ∧
      b.IsSlot ((p.packageInfo (p.num - 1)).startAddr + languagePackageSize) := by
  have := b.promptEnd_lt
  have hsize : 0 < languagePackageSize := by decide
  refine ⟨?_, ?_⟩
  · rw [slotBehind, if_neg h.not_embedded]
    exact Nat.mod_eq_of_lt (by omega)
  · obtain ⟨k, hk, -⟩ := h
    refine ⟨k + 1, ?_, by omega⟩
    rw [hk, Nat.succ_mul, Nat.add_assoc]

/-! ### A package is added -/

/-- A package with an address is added to the entry of its language, or behind the last one. -/
theorem recAddNewPackage_cases (p : PromptInfo) {info : PackageNode} (haddr : 0 < info.startAddr) :
    (∃ i < p.num, (p.packageInfo i).id = info.id ∧
      p.recAddNewPackage info = ⟨p.num, Function.update p.packageInfo i
        ⟨(p.packageInfo i).id, info.startAddr, (p.packageInfo i).len⟩⟩) ∨
    ¬p.Holds info.id ∧ p.recAddNewPackage info =
      ⟨(p.num + 1) % 0x100, Function.update p.packageInfo p.num info⟩ := by
  unfold PromptInfo.recAddNewPackage
  cases hfind : (List.range p.num).find? fun i => (p.packageInfo i).id = info.id with
  | some i =>
    obtain ⟨hid, hi, -⟩ := List.find?_range_eq_some.mp hfind
    refine .inl ⟨i, List.mem_range.mp hi, of_decide_eq_true hid, ?_⟩
    dsimp only
    rw [if_neg haddr.ne']
  | none =>
    refine .inr ⟨fun ⟨i, hi, hid⟩ => ?_, rfl⟩
    exact List.find?_eq_none.mp hfind i (List.mem_range.mpr hi) (decide_eq_true hid)

/-- What is in the entries then. -/
theorem recAddNewPackage_entries (p : PromptInfo) {info : PackageNode} (haddr : 0 < info.startAddr)
    (hnum : p.num < 0xFF) :
    0 < (p.recAddNewPackage info).num ∧ (p.recAddNewPackage info).num ≤ p.num + 1 ∧
    ∀ i < (p.recAddNewPackage info).num,
      ((p.recAddNewPackage info).packageInfo i).startAddr = info.startAddr ∨
      i < p.num ∧
        ((p.recAddNewPackage info).packageInfo i).startAddr = (p.packageInfo i).startAddr := by
  obtain ⟨n, hn, -, heq⟩ | ⟨-, heq⟩ := recAddNewPackage_cases p haddr
  · rw [heq]
    refine ⟨Nat.lt_of_le_of_lt (Nat.zero_le n) hn, Nat.le_succ _, fun i hi => ?_⟩
    dsimp only at hi ⊢
    by_cases hin : i = n
    · exact .inl (by rw [hin, Function.update_self])
    · exact .inr ⟨hi, by rw [Function.update_of_ne hin]⟩
  · rw [heq, Nat.mod_eq_of_lt (by omega)]
    refine ⟨Nat.succ_pos _, Nat.le_refl _, fun i hi => ?_⟩
    dsimp only at hi ⊢
    by_cases hin : i = p.num
    · exact .inl (by rw [hin, Function.update_self])
    · exact .inr ⟨Nat.lt_of_le_of_ne (Nat.le_of_lt_succ hi) hin, by rw [Function.update_of_ne hin]⟩

/-- Values that differ still do when one of them becomes a value that no other one is. -/
theorem eq_of_update_eq {α : Type} {f : Nat → α} {n m : Nat} {a : α}
    (h : ∀ i < n, ∀ j < n, f i = f j → i = j) (hnew : ∀ i < n, i ≠ m → f i ≠ a) {i j : Nat}
    (hi : i ≠ m → i < n) (hj : j ≠ m → j < n)
    (heq : Function.update f m a i = Function.update f m a j) : i = j := by
  by_cases him : i = m <;> by_cases hjm : j = m
  · exact him.trans hjm.symm
  · rw [him, Function.update_self, Function.update_of_ne hjm] at heq
    exact absurd heq.symm (hnew j (hj hjm) hjm)
  · rw [hjm, Function.update_self, Function.update_of_ne him] at heq
    exact absurd heq (hnew i (hi him) him)
  · rw [Function.update_of_ne him, Function.update_of_ne hjm] at heq
    exact h i (hi him) j (hj hjm) heq

/-- An entry is written that differs from the others. -/
theorem SharesNoFlash.update {p : PromptInfo} (h : SharesNoFlash b p) {n m : Nat}
    {info : PackageNode} (hn : n ≤ b.localPackageMax) (hnum : ∀ i < n, i ≠ m → i < p.num)
    (hid : ∀ i < p.num, i ≠ m → (p.packageInfo i).id ≠ info.id)
    (haddr : ∀ i < p.num, i ≠ m → (p.packageInfo i).startAddr ≠ info.startAddr)
    (hslot : b.IsSlot info.startAddr) :
    SharesNoFlash b ⟨n, Function.update p.packageInfo m info⟩ where
  num_le := hn
  languages i hi j hj heq := by
    simp only [Function.apply_update fun _ => PackageNode.id] at heq
    exact eq_of_update_eq h.languages hid (hnum i hi) (hnum j hj) heq
  isSlot i hi := by
    dsimp only
    by_cases him : i = m
    · rwa [him, Function.update_self]
    · rw [Function.update_of_ne him]
      exact h.isSlot i (hnum i hi him)
  slots i hi j hj heq := by
    simp only [Function.apply_update fun _ => PackageNode.startAddr] at heq
    exact eq_of_update_eq h.slots haddr (hnum i hi) (hnum j hj) heq

/-- A package keeps the others apart when it finds an entry and its slot is its own. -/
theorem SharesNoFlash.recAddNewPackage {p : PromptInfo} (h : SharesNoFlash b p)
    {info : PackageNode} (hslot : b.IsSlot info.startAddr)
    (hown : ∀ i < p.num, (p.packageInfo i).startAddr = info.startAddr →
      (p.packageInfo i).id = info.id)
    (hroom : p.Holds info.id ∨ p.num < b.localPackageMax) :
    SharesNoFlash b (p.recAddNewPackage info) := by
  obtain ⟨n, hn, hid, heq⟩ | ⟨hnew, heq⟩ := recAddNewPackage_cases p hslot.pos
  · -- the entry of the language moves to the new slot
    have hids : ∀ i < p.num, i ≠ n → (p.packageInfo i).id ≠ info.id :=
      fun i hi hne hi' => hne (h.languages i hi n hn (hi'.trans hid.symm))
    rw [heq]
    refine h.update h.num_le (fun i hi _ => hi) ?_ ?_ hslot
    · rwa [hid]
    · exact fun i hi hne haddr => hids i hi hne (hown i hi haddr)
  · -- the package comes behind the last one
    have hlt : p.num < b.localPackageMax := hroom.resolve_left hnew
    have hids : ∀ i < p.num, i ≠ p.num → (p.packageInfo i).id ≠ info.id :=
      fun i hi _ hid => hnew ⟨i, hi, hid⟩
    rw [heq, Nat.mod_eq_of_lt (Nat.lt_of_le_of_lt hlt b.localPackageMax_lt)]
    refine h.update hlt (fun i hi hne => by omega) hids ?_ hslot
    exact fun i hi hne haddr => hids i hi hne (hown i hi haddr)

/-! ### The boot -/

/-- The first `k` slots have been registered. -/
structure Registered (b : PromptBuild) (k : Nat) (p : PromptInfo) : Prop where
  shares : SharesNoFlash b p
  num_le : p.num ≤ k
  num_pos : 0 < k → 0 < p.num
  below : ∀ i < p.num, (p.packageInfo i).startAddr < b.promptStart + k * languagePackageSize

theorem Registered.recAddNewPackage {k : Nat} {p : PromptInfo} (h : Registered b k p)
    (hk : k < b.localPackageMax) {info : PackageNode}
    (haddr : info.startAddr = b.promptStart + k * languagePackageSize) :
    Registered b (k + 1) (p.recAddNewPackage info) := by
  have hslot : b.IsSlot info.startAddr := haddr ▸ b.isSlot_nth hk
  have hsize : 0 < languagePackageSize := by decide
  have hnext : b.promptStart + (k + 1) * languagePackageSize =
      info.startAddr + languagePackageSize := by
    rw [haddr, Nat.succ_mul, Nat.add_assoc]
  have hbelow : ∀ i < p.num, (p.packageInfo i).startAddr < info.startAddr := haddr ▸ h.below
  have hnum : p.num < 0xFF := by
    have := h.num_le
    have := b.localPackageMax_lt
    omega
  obtain ⟨hpos, hle, hentries⟩ := recAddNewPackage_entries p hslot.pos hnum
  refine ⟨?_, Nat.le_trans hle (Nat.succ_le_succ h.num_le), fun _ => hpos, fun i hi => ?_⟩
  · exact h.shares.recAddNewPackage hslot (fun i hi heq => absurd heq (hbelow i hi).ne)
      (.inr (Nat.lt_of_le_of_lt h.num_le hk))
  · rw [hnext]
    obtain heq | ⟨hi', heq⟩ := hentries i hi
    · omega
    · have := hbelow i hi'
      omega

/-- The loop over the slots from the `k`-th on. -/
theorem Registered.registerSlots {flash : NorMemory.Content} {n k : Nat} {p q : PromptInfo}
    (h : Registered b k p) (hk : k + n ≤ b.localPackageMax)
    (hrun : PromptInfo.registerSlots b flash (List.range' k n) p = some q) :
    Registered b (k + n) q := by
  induction n generalizing k p with
  | zero =>
    obtain rfl := Option.some.inj hrun
    exact h
  | succ n ih =>
    rw [List.range'_succ, PromptInfo.registerSlots] at hrun
    have hlt : k < b.localPackageMax := by omega
    have haddr := Nat.mod_eq_of_lt (b.isSlot_nth hlt).lt
    rw [haddr] at hrun
    split at hrun
    · cases hrun
    · rw [← Nat.succ_add_eq_add_succ]
      exact ih (h.recAddNewPackage hlt rfl) (by omega) hrun

/-- A boot leaves a record, or makes one. -/
theorem SharesNoFlash.recInit {flash : NorMemory.Content} {p q : PromptInfo}
    (h : SharesNoFlash b p) (hinit : p.recInit b flash = some q) : SharesNoFlash b q := by
  unfold PromptInfo.recInit at hinit
  split at hinit
  · next hnum =>
    have hbegin : Registered b 0 p :=
      ⟨h, Nat.le_of_eq hnum, fun hlt => absurd hlt (Nat.lt_irrefl 0), fun i hi => by omega⟩
    rw [List.range_eq_range'] at hinit
    obtain ⟨r, hrun, hr⟩ := Option.map_eq_some_iff.mp hinit
    have hend := hbegin.registerSlots (Nat.le_of_eq (Nat.zero_add _)) hrun
    -- there is a slot, so that no default package is needed
    have hpos : r.num ≠ 0 :=
      (hend.num_pos (by rw [Nat.zero_add]; exact b.localPackageMax_pos)).ne'
    rw [if_neg hpos] at hr
    exact hr ▸ hend.shares
  · exact Option.some.inj hinit ▸ h

/-! ### Lookups and downloads -/

/-- The entry that is found is the first one of the language. -/
theorem not_holds_of_le {p : PromptInfo} {language : UInt8} {i : Nat}
    (hfind : (List.range b.localPackageMax).find? (fun i => (p.packageInfo i).id = language) =
      some i) (hi : p.num ≤ i) :
    ¬p.Holds language := by
  rintro ⟨j, hj, hid⟩
  obtain ⟨-, -, hfirst⟩ := List.find?_range_eq_some.mp hfind
  exact absurd hid (by simpa using hfirst j (Nat.lt_of_lt_of_le hj hi))

theorem not_holds_of_find {p : PromptInfo} (h : SharesNoFlash b p) {language : UInt8}
    (hfind : (List.range b.localPackageMax).find? (fun i => (p.packageInfo i).id = language) =
      none) : ¬p.Holds language := by
  rintro ⟨j, hj, hid⟩
  exact List.find?_eq_none.mp hfind j (List.mem_range.mpr (Nat.lt_of_lt_of_le hj h.num_le))
    (decide_eq_true hid)

/-- The oldest package is gone, and its slot is free. -/
theorem SharesNoFlash.dropOldest {p : PromptInfo} (h : SharesNoFlash b p)
    (hfull : p.num = b.localPackageMax) :
    SharesNoFlash b (p.dropOldest b) ∧ ∀ i < (p.dropOldest b).num,
      ((p.dropOldest b).packageInfo i).startAddr ≠ (p.packageInfo 0).startAddr := by
  have hmoved : ∀ i < p.num - 1, (p.dropOldest b).packageInfo i = p.packageInfo (i + 1) :=
    fun i hi => if_pos (hfull ▸ hi)
  have hbound : ∀ i < p.num - 1, i + 1 < p.num := fun i hi => by omega
  refine ⟨⟨Nat.le_trans (Nat.sub_le _ _) h.num_le, fun i hi j hj => ?_, fun i hi => ?_,
    fun i hi j hj => ?_⟩, fun i hi => ?_⟩
  · rw [hmoved i hi, hmoved j hj]
    exact fun heq => Nat.succ.inj (h.languages _ (hbound i hi) _ (hbound j hj) heq)
  · rw [hmoved i hi]
    exact h.isSlot _ (hbound i hi)
  · rw [hmoved i hi, hmoved j hj]
    exact fun heq => Nat.succ.inj (h.slots _ (hbound i hi) _ (hbound j hj) heq)
  · rw [hmoved i hi]
    have hpos : 0 < p.num := hfull ▸ b.localPackageMax_pos
    exact fun heq => absurd (h.slots _ (hbound i hi) 0 hpos heq) (Nat.succ_ne_zero i)

/-- A lookup finds a package of the record or none. -/
theorem getPackageAddr_lookup {p : PromptInfo} {language : UInt8} {r : PromptInfo × Nat}
    (hstale : p.Holds language ∨ ∀ i < b.localPackageMax, p.num ≤ i →
      (p.packageInfo i).id = language → (p.packageInfo i).startAddr = 0)
    (hr : p.getPackageAddr b language false = some r) :
    r.1 = p ∧ (r.2 = 0 ∨ ∃ i < p.num, (p.packageInfo i).id = language ∧
      (p.packageInfo i).startAddr = r.2) := by
  unfold PromptInfo.getPackageAddr at hr
  split at hr
  · cases hr
  · split at hr
    · next i hfind =>
      obtain rfl := Option.some.inj hr
      obtain ⟨hid, hi, -⟩ := List.find?_range_eq_some.mp hfind
      have hid := of_decide_eq_true hid
      refine ⟨rfl, ?_⟩
      by_cases hlt : i < p.num
      · exact .inr ⟨i, hlt, hid, rfl⟩
      · have hle := Nat.not_lt.mp hlt
        exact .inl
          (hstale.resolve_left (not_holds_of_le hfind hle) i (List.mem_range.mp hi) hle hid)
    · obtain rfl := Option.some.inj hr
      exact ⟨rfl, .inl rfl⟩

/-- A download gets the slot of its language, the one that has become free, or the next one. -/
theorem getPackageAddr_download {p : PromptInfo} (h : SharesNoFlash b p) {language : UInt8}
    {r : PromptInfo × Nat} (hstale : p.Holds language ∨
      (∀ i < b.localPackageMax, p.num ≤ i → (p.packageInfo i).id ≠ language) ∧
      (p.num < b.localPackageMax →
        (p.packageInfo (p.num - 1)).startAddr + 2 * languagePackageSize ≤ b.promptEnd ∧
        ∀ i < p.num, (p.packageInfo i).startAddr ≠
          (p.packageInfo (p.num - 1)).startAddr + languagePackageSize))
    (hr : p.getPackageAddr b language true = some r) :
    SharesNoFlash b r.1 ∧ b.IsSlot r.2 ∧ ∀ i < r.1.num,
      (r.1.packageInfo i).startAddr = r.2 → (r.1.packageInfo i).id = language := by
  unfold PromptInfo.getPackageAddr at hr
  split at hr
  · cases hr
  · next hnum =>
    split at hr
    · next n hfind =>
      obtain rfl := Option.some.inj hr
      obtain ⟨hid, hn, -⟩ := List.find?_range_eq_some.mp hfind
      have hid := of_decide_eq_true hid
      have hlt : n < p.num := by
        by_contra hle
        have hle := Nat.not_lt.mp hle
        exact (hstale.resolve_left (not_holds_of_le hfind hle)).1 n (List.mem_range.mp hn) hle hid
      have hslot := h.isSlot n hlt
      dsimp only
      rw [if_neg fun hembedded => Nat.not_lt.mpr hslot.start_le hembedded.2]
      refine ⟨h, hslot, fun i hi heq => ?_⟩
      rw [h.slots i hi n hlt heq, hid]
    · next hfind =>
      obtain ⟨-, hnext⟩ := hstale.resolve_left (not_holds_of_find h hfind)
      rw [if_pos rfl] at hr
      have hpos := Nat.pos_of_ne_zero hnum
      split at hr
      · next hfull =>
        obtain rfl := Option.some.inj hr
        obtain ⟨hkept, hfree⟩ := h.dropOldest (Nat.le_antisymm h.num_le hfull)
        exact ⟨hkept, h.isSlot 0 hpos, fun i hi heq => absurd heq (hfree i hi)⟩
      · next hroom =>
        obtain rfl := Option.some.inj hr
        obtain ⟨hend, hfree⟩ := hnext (Nat.not_le.mp hroom)
        obtain ⟨heq, hslot⟩ := PromptInfo.slotBehind_eq
          (h.isSlot _ (Nat.sub_lt hpos Nat.one_pos)) hend
        dsimp only
        rw [heq]
        exact ⟨h, hslot, fun i hi heq => absurd heq (hfree i hi)⟩

/-! ### Runs -/

/-- No packages share flash, and what is downloaded has a slot. -/
structure Apart (b : PromptBuild) (s : Prompts) : Prop where
  shares : SharesNoFlash b s.info
  pending : ∀ addr, s.pending = some addr → b.IsSlot addr

/-- An orderly event keeps the packages apart. -/
theorem Apart.step {s : Prompts} (h : Apart b s) {e : PromptEvent} (ho : Orderly b s e) :
    Separate b s e ∧ ∀ t, s.step b e = some t → Apart b t := by
  cases e with
  | boot flash =>
    have hboot : ∀ t, s.step b (.boot flash) = some t →
        SharesNoFlash b t.info ∧ t.pending = none := by
      intro t ht
      obtain ⟨info, hinfo, rfl⟩ := Option.map_eq_some_iff.mp ht
      exact ⟨h.shares.recInit hinfo, rfl⟩
    exact ⟨fun t ht => ⟨(hboot t ht).1, trivial⟩,
      fun t ht => ⟨(hboot t ht).1, by simp [hboot t ht]⟩⟩
  | lookup language =>
    have hkept : ∀ t, s.step b (.lookup language) = some t → t = s := by
      intro t ht
      obtain ⟨r, hr, rfl⟩ := Option.map_eq_some_iff.mp ht
      rw [(getPackageAddr_lookup ho hr).1]
    exact ⟨fun t ht => ⟨hkept t ht ▸ h.shares, fun r hr => (getPackageAddr_lookup ho hr).2⟩,
      fun t ht => hkept t ht ▸ h⟩
  | download language =>
    refine ⟨fun t ht => ?_, fun t ht => ?_⟩
    all_goals
      obtain ⟨r, hr, rfl⟩ := Option.map_eq_some_iff.mp ht
      obtain ⟨hkept, hslot, hfree⟩ := getPackageAddr_download h.shares ho hr
    · refine ⟨hkept, fun addr haddr => ?_⟩
      obtain rfl := Option.some.inj haddr
      exact ⟨hslot, hfree⟩
    · refine ⟨hkept, fun addr haddr => ?_⟩
      obtain rfl := Option.some.inj haddr
      exact hslot
  | complete id len =>
    have hadded : ∀ t, s.step b (.complete id len) = some t →
        SharesNoFlash b t.info ∧ t.pending = none := by
      intro t ht
      obtain ⟨addr, haddr, rfl⟩ := Option.map_eq_some_iff.mp ht
      refine ⟨h.shares.recAddNewPackage (h.pending addr haddr) (fun i hi heq => ?_) ho.2, rfl⟩
      exact ho.1 i hi (haddr.trans (congrArg some heq.symm))
    exact ⟨fun t ht => ⟨(hadded t ht).1, trivial⟩,
      fun t ht => ⟨(hadded t ht).1, by simp [hadded t ht]⟩⟩
  | abandon =>
    refine ⟨fun t ht => ?_, fun t ht => ?_⟩
    all_goals obtain rfl := Option.some.inj ht
    · exact ⟨h.shares, trivial⟩
    · exact ⟨h.shares, fun addr haddr => absurd haddr.symm (Option.some_ne_none addr)⟩

/-- The record before the first boot. -/
def Prompts.initial : Prompts := ⟨⟨0, fun _ => ⟨0, 0, 0⟩⟩, none⟩

theorem apart_initial : Apart b .initial where
  shares := ⟨Nat.zero_le _, nofun, nofun, nofun⟩
  pending := nofun

/-- Along every run of orderly events no packages share flash. -/
theorem separate_along {es : List PromptEvent}
    (hes : Along (Prompts.step b) (Orderly b) .initial es) :
    Along (Prompts.step b) (Separate b) .initial es := by
  have hkept := hes.strengthen (fun _ _ t hs ho ht => (hs.step ho).2 t ht) apart_initial
  exact hkept.mono fun _ _ ⟨hs, ho⟩ => (hs.step ho).1

/-- A section for one package. -/
def onePackage : PromptBuild where
  localPackageMax := 1
  promptStart := 0x3C300000
  promptEnd := 0x3C325800
  defaultPromptInfo := ⟨1, 0x3C300000, 0x25800⟩
  localPackageMax_pos := by decide
  localPackageMax_lt := by decide
  promptStart_pos := by decide
  room := by decide
  promptEnd_lt := by decide
  window := by decide

/-- A section for two packages. -/
def twoPackages : PromptBuild where
  localPackageMax := 2
  promptStart := 0x3C300000
  promptEnd := 0x3C34B000
  defaultPromptInfo := ⟨1, 0x3C300000, 0x25800⟩
  localPackageMax_pos := by decide
  localPackageMax_lt := by decide
  promptStart_pos := by decide
  room := by decide
  promptEnd_lt := by decide
  window := by decide

/-- Empty packages of two languages in the first slots. -/
def promptFlash (first second : UInt8) : NorMemory.Content := fun a =>
  if a = 0x3C300000 then first else if a = 0x3C325800 then second else 0

/-- The package is replaced, and looked up. -/
theorem separate_along_replaced :
    Along (Prompts.step onePackage) (Separate onePackage) .initial
      [.boot (promptFlash 1 0), .lookup 1, .download 2, .complete 2 16, .lookup 1, .download 2,
        .abandon] := by
  refine separate_along ⟨trivial, fun _ h => ?_⟩
  obtain rfl := Option.some.inj h
  refine ⟨by dsimp only [Orderly]; decide, fun _ h => ?_⟩
  obtain rfl := Option.some.inj h
  refine ⟨by dsimp only [Orderly]; decide, fun _ h => ?_⟩
  obtain rfl := Option.some.inj h
  refine ⟨by dsimp only [Orderly]; decide, fun _ h => ?_⟩
  obtain rfl := Option.some.inj h
  refine ⟨by dsimp only [Orderly]; decide, fun _ h => ?_⟩
  obtain rfl := Option.some.inj h
  refine ⟨by dsimp only [Orderly]; decide, fun _ h => ?_⟩
  exact ⟨trivial, fun _ _ => trivial⟩

/-- What the last event of a run keeps. -/
theorem separate_last (es : List PromptEvent) {e : PromptEvent} {s t : Prompts}
    (h : Along (Prompts.step b) (Separate b) .initial (es ++ [e]))
    (hrun : es.foldlM (Prompts.step b) .initial = some s) (ht : s.step b e = some t) :
    SharesNoFlash b t.info ∧
      ∀ language, e = .download language → ∀ addr, t.pending = some addr → b.IsSlot addr := by
  obtain ⟨hkept, hlast⟩ := h.last hrun t ht
  refine ⟨hkept, fun language he addr haddr => ?_⟩
  subst he
  exact (hlast addr haddr).1

/-- The package that is downloaded for one language turns out to be of another one, and comes behind
the end of the array. After a download that has been abandoned, the next one gets the end of the
section. -/
theorem not_separate :
    ¬Along (Prompts.step onePackage) (Separate onePackage) .initial
        [.boot (promptFlash 0xFF 0), .download 0xFF, .complete 5 16] ∧
      ¬Along (Prompts.step twoPackages) (Separate twoPackages) .initial
        [.boot (promptFlash 1 2), .download 3, .abandon, .download 4] := by
  refine ⟨fun h => ?_, fun h => ?_⟩
  · have hkept := separate_last [.boot (promptFlash 0xFF 0), .download 0xFF] h rfl rfl
    exact absurd hkept.1.num_le (by decide)
  · have hkept := separate_last [.boot (promptFlash 1 2), .download 3, .abandon] h rfl rfl
    obtain ⟨-, -, hend⟩ := hkept.2 4 rfl _ rfl
    exact absurd hend (by decide)

end EarbudFirmware.Prompt
