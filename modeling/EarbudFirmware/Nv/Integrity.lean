import EarbudFirmware.Lib.InOrder
import EarbudFirmware.Lib.Transition
import EarbudFirmware.Nv.Flush

/-!
# Integrity of the two NV sectors

One of the two sectors is complete at every moment, so a power loss never loses the record. The
checksum is assumed to detect a torn sector: a sector in which an operation was interrupted is only
valid when it holds the record from before or from after that operation.

## Main definitions

* `Phase` — what holds in each state of a flush
* `Inv` — the invariant, for a property `F` of the records that a restart may load
* `TornDetected` — the assumption on interrupted operations
* `Recoverable` — the flash contents from which a restart loads a record

## Main results

* `Inv.step` — a step of a flush keeps the invariant
* `Inv.recoverable` — the power may be lost in every phase
* `Recoverable.boot` — a restart starts over with the invariant
-/

namespace EarbudFirmware.Nv

open NorMemory (Content Op InRange overlay)
open InOrder (after Throughout)
open Transition (Along)

variable {nv : NvConfig} {f g : Content} {x y : Sector} {R R' F G : List UInt8 → Prop}

/-! ### What a sector holds -/

/-- The two contents agree on the record of the sector. -/
def NvConfig.Same (nv : NvConfig) (f g : Content) (x : Sector) : Prop :=
  ∀ i < nv.recordSize, nv.sector f x i = nv.sector g x i

/-- If the sector is valid, its record has the property. -/
def Holds (nv : NvConfig) (R : List UInt8 → Prop) (f : Content) (x : Sector) : Prop :=
  dataIsValid nv (nv.sector f x) = true → R (record (nv.sector f x))

/-- The sector is valid and its record has the property. -/
def Good (nv : NvConfig) (R : List UInt8 → Prop) (f : Content) (x : Sector) : Prop :=
  dataIsValid nv (nv.sector f x) = true ∧ R (record (nv.sector f x))

theorem NvConfig.Same.symm (h : nv.Same f g x) : nv.Same g f x := fun i hi => (h i hi).symm

theorem Good.holds (h : Good nv R f x) : Holds nv R f x := fun _ => h.2

theorem Good.mono (hR : ∀ r, R r → R' r) (h : Good nv R f x) : Good nv R' f x := ⟨h.1, hR _ h.2⟩

theorem Holds.mono (hR : ∀ r, R r → R' r) (h : Holds nv R f x) : Holds nv R' f x :=
  fun hv => hR _ (h hv)

theorem Good.congr (hs : nv.Same f g x) (h : Good nv R g x) : Good nv R f x := by
  refine ⟨dataIsValid_congr hs h.1, ?_⟩
  rw [record_congr hs (headerValidLen_le h.1)]
  exact h.2

theorem NvConfig.recordSize_le (nv : NvConfig) : nv.recordSize ≤ extensionSize := by
  have := nv.validLen_lt
  unfold NvConfig.recordSize
  unfold extensionSize headerSize at *
  omega

/-! ### Operations on a sector -/

/-- The operation changes the sector only. -/
def NvConfig.On (nv : NvConfig) (x : Sector) (op : Op) : Prop :=
  ∀ p, op.Covers p → InRange (nv.start x) extensionSize p

theorem NvConfig.on_eraseOp : nv.On x (nv.eraseOp x) := fun _ h => h

theorem NvConfig.on_writeOp {buf : Content} : nv.On x (nv.writeOp x buf) := fun p h => by
  have := nv.recordSize_le
  obtain ⟨hlo, hhi⟩ : InRange (nv.start x) nv.recordSize p := h
  exact ⟨hlo, by omega⟩

/-- An operation on one sector does not cover the other one. -/
theorem NvConfig.On.not_covers {op : Op} (h : nv.On x op) (hxy : y ≠ x) {i : Nat}
    (hi : i < nv.recordSize) : ¬op.Covers (nv.start y + i) := by
  intro hc
  have hsize := nv.recordSize_le
  obtain ⟨hlo, hhi⟩ := h _ hc
  cases x <;> cases y <;> simp only [NvConfig.start] at hlo hhi
  · exact hxy rfl
  · omega
  · omega
  · exact hxy rfl

theorem NvConfig.On.same_apply {op : Op} (h : nv.On x op) (hxy : y ≠ x) (f : Content) :
    nv.Same (op.apply f) f y := fun i hi => by
  simp only [NvConfig.sector, Op.apply_apply]
  exact Op.byteAt_of_not_covers (h.not_covers hxy hi) _

theorem NvConfig.On.same_interrupted {op : Op} (h : nv.On x op) (hxy : y ≠ x)
    (hp : op.Partial f g) : nv.Same g f y := fun _ hi => hp.eq_of_not_covers (h.not_covers hxy hi)

/-- An erased sector. -/
theorem sector_eraseOp {i : Nat} (hi : i < nv.recordSize) (f : Content) :
    nv.sector ((nv.eraseOp x).apply f) x i = 0xFF := by
  have := nv.recordSize_le
  have hr : InRange (nv.start x) extensionSize (nv.start x + i) := ⟨by omega, by omega⟩
  exact if_pos hr

/-- A written sector. -/
theorem sector_writeOp {i : Nat} (hi : i < nv.recordSize) (f buf : Content) :
    nv.sector ((nv.writeOp x buf).apply f) x i = nv.sector f x i &&& buf i := by
  have hr : InRange (nv.start x) nv.recordSize (nv.start x + i) := ⟨by omega, by omega⟩
  have happly : nv.sector ((nv.writeOp x buf).apply f) x i =
      f (nv.start x + i) &&& buf (nv.start x + i - nv.start x) := if_pos hr
  rw [happly, Nat.add_sub_cancel_left]
  rfl

theorem holds_eraseOp : Holds nv R ((nv.eraseOp x).apply f) x := fun hv => by
  have herased : dataIsValid nv (nv.sector ((nv.eraseOp x).apply f) x) = false :=
    dataIsValid_of_erased fun i hi => sector_eraseOp (by unfold NvConfig.recordSize; omega) f
  simp [herased] at hv

/-! ### The phases of a flush -/

/-- Nothing is queued. A restart loads from `main` when it is valid, otherwise from `bak`. -/
structure AtRest (nv : NvConfig) (F G : List UInt8 → Prop) (f : Content) (q : List Op) : Prop where
  empty : q = []
  main : Holds nv F f .main
  bak : Good nv G f .bak
  fallback : dataIsValid nv (nv.sector f .main) = false → F (record (nv.sector f .bak))

/-- The queue works on `main` while `bak` is complete. -/
structure MainBusy (nv : NvConfig) (F : List UInt8 → Prop) (f : Content) (q : List Op) : Prop where
  on : ∀ op ∈ q, nv.On .main op
  path : Throughout Op.apply (Holds nv F · .main) q f
  bak : Good nv F f .bak

/-- The queue works on `bak` while `main` is complete. -/
structure BakBusy (nv : NvConfig) (F G : List UInt8 → Prop) (f : Content) (q : List Op) :
    Prop where
  on : ∀ op ∈ q, nv.On .bak op
  path : Throughout Op.apply (Holds nv G · .bak) q f
  main : Good nv F f .main

/-- `main` is complete and nothing is queued. -/
structure MainDone (nv : NvConfig) (F G : List UInt8 → Prop) (f : Content) (q : List Op) :
    Prop where
  empty : q = []
  main : Good nv F f .main
  bak : Holds nv G f .bak

/-- The record of the sector once the queue has been executed. -/
def Ends (nv : NvConfig) (x : Sector) (f : Content) (q : List Op) (P : Nat → UInt8 → Prop) : Prop :=
  ∀ i < nv.recordSize, P i (nv.sector (after Op.apply q f) x i)

/-- The burn buffer holds a record. -/
def Burns (nv : NvConfig) (F : List UInt8 → Prop) (buf : Content) : Prop :=
  dataIsValid nv buf = true ∧ F (record buf)

/-- What holds in each state. The last three states do not occur between two calls. -/
def Phase (nv : NvConfig) (F G : List UInt8 → Prop) (buf f : Content) (q : List Op) :
    NvState → Prop
  | .idle | .mainErasing => AtRest nv F G f q
  | .mainErased => MainBusy nv F f q ∧ Ends nv .main f q fun _ b => b = 0xFF
  | .mainWritePending =>
    MainBusy nv F f q ∧ (Ends nv .main f q fun _ b => b = 0xFF) ∧ Burns nv F buf
  | .mainWritten => MainBusy nv F f q ∧ (Ends nv .main f q fun i b => b = buf i) ∧ Burns nv F buf
  | .mainDone | .bakErasing => MainDone nv F G f q
  | .bakErased =>
    BakBusy nv F G f q ∧
      Ends nv .bak f q fun i b => b &&& nv.sector f .main i = nv.sector f .main i
  | .bakWritePending =>
    BakBusy nv F G f q ∧
      (Ends nv .bak f q fun i b => b &&& nv.sector f .main i = nv.sector f .main i) ∧
      ∀ i < nv.recordSize, buf i = nv.sector f .main i
  | .bakWritten => BakBusy nv F G f q ∧ Ends nv .bak f q fun i b => b = nv.sector f .main i
  | .mainWritting | .bakWritting | .bakDone => False

section Phases

variable {buf : Content} {q : List Op} {op : Op}

/-- On one sector, the operations of another one have no effect. -/
theorem same_after (hq : ∀ op ∈ q, nv.On x op) (hxy : y ≠ x) (f : Content) :
    nv.Same (after Op.apply q f) f y := by
  induction q generalizing f with
  | nil => exact fun _ _ => rfl
  | cons op q ih =>
    intro i hi
    rw [InOrder.after_cons, ih (fun o ho => hq o (List.mem_cons_of_mem _ ho)) _ i hi]
    exact (hq op List.mem_cons_self).same_apply hxy f i hi

theorem MainBusy.mono (hF : ∀ r, F r → R r) (h : MainBusy nv F f q) : MainBusy nv R f q :=
  ⟨h.on, h.path.mono fun _ => Holds.mono hF, h.bak.mono hF⟩

theorem BakBusy.mono (hF : ∀ r, F r → R r) (hG : ∀ r, G r → R' r) (h : BakBusy nv F G f q) :
    BakBusy nv R R' f q :=
  ⟨h.on, h.path.mono fun _ => Holds.mono hG, h.main.mono hF⟩

/-- More records may be loaded. -/
theorem Phase.mono (hF : ∀ r, F r → R r) (hG : ∀ r, G r → R' r) {st : NvState}
    (h : Phase nv F G buf f q st) : Phase nv R R' buf f q st := by
  cases st with
  | idle => exact ⟨h.empty, h.main.mono hF, h.bak.mono hG, fun hv => hF _ (h.fallback hv)⟩
  | mainErasing => exact ⟨h.empty, h.main.mono hF, h.bak.mono hG, fun hv => hF _ (h.fallback hv)⟩
  | mainErased => exact ⟨h.1.mono hF, h.2⟩
  | mainWritePending => exact ⟨h.1.mono hF, h.2.1, h.2.2.1, hF _ h.2.2.2⟩
  | mainWritten => exact ⟨h.1.mono hF, h.2.1, h.2.2.1, hF _ h.2.2.2⟩
  | mainDone => exact ⟨h.empty, h.main.mono hF, h.bak.mono hG⟩
  | bakErasing => exact ⟨h.empty, h.main.mono hF, h.bak.mono hG⟩
  | bakErased => exact ⟨h.1.mono hF hG, h.2⟩
  | bakWritePending => exact ⟨h.1.mono hF hG, h.2⟩
  | bakWritten => exact ⟨h.1.mono hF hG, h.2⟩
  | mainWritting => exact h
  | bakWritting => exact h
  | bakDone => exact h

/-! ### The flash service executes the queue -/

/-- The oldest operation is completed, or interrupted without an undetected torn sector. -/
inductive Executes (nv : NvConfig) (f : Content) : List Op → Content → List Op → Prop where
  | complete (op : Op) (q : List Op) : Executes nv f (op :: q) (op.apply f) q
  | interrupt (op : Op) (q : List Op) {g : Content} (hp : op.Partial f g)
      (hd : ∀ x, dataIsValid nv (nv.sector g x) = true →
        Good nv (· = record (nv.sector g x)) f x ∨
          Good nv (· = record (nv.sector g x)) (op.apply f) x) :
      Executes nv f (op :: q) g (op :: q)

namespace Executes

variable {q' : List Op}

theorem after_eq (h : Executes nv f q g q') : after Op.apply q' g = after Op.apply q f := by
  cases h with
  | complete op q => rfl
  | interrupt op q hp hd =>
    have happly : op.apply g = op.apply f := funext fun p => hp.byteAt_eq p
    rw [InOrder.after_cons, InOrder.after_cons, happly]

theorem on (h : Executes nv f q g q') (hq : ∀ op ∈ q, nv.On x op) : ∀ op ∈ q', nv.On x op := by
  cases h with
  | complete op q => exact fun o ho => hq o (List.mem_cons_of_mem _ ho)
  | interrupt op q hp hd => exact hq

theorem same (h : Executes nv f q g q') (hq : ∀ op ∈ q, nv.On x op) (hxy : y ≠ x) :
    nv.Same g f y := by
  cases h with
  | complete op q => exact (hq op List.mem_cons_self).same_apply hxy f
  | interrupt op q hp hd => exact (hq op List.mem_cons_self).same_interrupted hxy hp

theorem path (h : Executes nv f q g q') (hpath : Throughout Op.apply (Holds nv R · x) q f) :
    Throughout Op.apply (Holds nv R · x) q' g := by
  cases h with
  | complete op q => exact hpath.2
  | interrupt op q hp hd =>
    have happly : op.apply g = op.apply f := funext fun p => hp.byteAt_eq p
    refine hpath.interrupt (fun hv => ?_) happly
    rcases hd x hv with ⟨hv', heq⟩ | ⟨hv', heq⟩
    · exact heq ▸ hpath.now hv'
    · exact heq ▸ hpath.2.now hv'

theorem mainBusy (h : Executes nv f q g q') (hb : MainBusy nv F f q) : MainBusy nv F g q' :=
  ⟨h.on hb.on, h.path hb.path, hb.bak.congr (h.same hb.on nofun)⟩

theorem bakBusy (h : Executes nv f q g q') (hb : BakBusy nv F G f q) : BakBusy nv F G g q' :=
  ⟨h.on hb.on, h.path hb.path, hb.main.congr (h.same hb.on nofun)⟩

theorem ends {P : Nat → UInt8 → Prop} (h : Executes nv f q g q') (he : Ends nv x f q P) :
    Ends nv x g q' P := by
  unfold Ends
  rw [h.after_eq]
  exact he

/-- Executing the queue does not change the phase. -/
theorem phase {st : NvState} (h : Executes nv f q g q') (hp : Phase nv F G buf f q st) :
    Phase nv F G buf g q' st := by
  -- nothing is executed in the states whose queue is empty
  have hne : q ≠ [] := by
    cases h <;> exact List.cons_ne_nil _ _
  have hmain : ∀ {P : Nat → UInt8 → UInt8 → Prop}, BakBusy nv F G f q →
      (Ends nv .bak f q fun i b => P i b (nv.sector f .main i)) →
      Ends nv .bak g q' fun i b => P i b (nv.sector g .main i) := by
    intro P hb he i hi
    have hsame : nv.Same g f .main := h.same hb.on nofun
    rw [hsame i hi]
    exact h.ends he i hi
  cases st with
  | idle => exact absurd hp.empty hne
  | mainErasing => exact absurd hp.empty hne
  | mainErased => exact ⟨h.mainBusy hp.1, h.ends hp.2⟩
  | mainWritePending => exact ⟨h.mainBusy hp.1, h.ends hp.2.1, hp.2.2⟩
  | mainWritten => exact ⟨h.mainBusy hp.1, h.ends hp.2.1, hp.2.2⟩
  | mainDone => exact absurd hp.empty hne
  | bakErasing => exact absurd hp.empty hne
  | bakErased => exact ⟨h.bakBusy hp.1, hmain (P := fun _ b m => b &&& m = m) hp.1 hp.2⟩
  | bakWritePending =>
    refine ⟨h.bakBusy hp.1, hmain (P := fun _ b m => b &&& m = m) hp.1 hp.2.1, fun i hi => ?_⟩
    have hsame : nv.Same g f .main := h.same hp.1.on nofun
    rw [hsame i hi]
    exact hp.2.2 i hi
  | bakWritten => exact ⟨h.bakBusy hp.1, hmain (P := fun _ b m => b = m) hp.1 hp.2⟩
  | mainWritting => exact hp
  | bakWritting => exact hp
  | bakDone => exact hp

end Executes

/-! ### The flush goes on -/

/-- The erase of `main` is queued. The backup must hold what a restart may load. -/
theorem AtRest.eraseMain (h : AtRest nv F G f q) (hbak : F (record (nv.sector f .bak))) :
    Phase nv F G buf f (q ++ [nv.eraseOp .main]) .mainErased := by
  obtain ⟨rfl, hm, hb, -⟩ := h
  refine ⟨⟨?_, ⟨hm, holds_eraseOp⟩, hb.1, hbak⟩, fun i hi => sector_eraseOp hi f⟩
  simpa using NvConfig.on_eraseOp

theorem Phase.snapshot {buf' : Content} (h : Phase nv F G buf f q .mainErased)
    (hb : Burns nv F buf') : Phase nv F G buf' f q .mainWritePending := ⟨h.1, h.2, hb⟩

/-- The write of `main` is queued. -/
theorem Phase.writeMain (h : Phase nv F G buf f q .mainWritePending) :
    Phase nv F G buf f (q ++ [nv.writeOp .main buf]) .mainWritten := by
  obtain ⟨hbusy, herased, hburn⟩ := h
  have hends : ∀ i < nv.recordSize,
      nv.sector ((nv.writeOp .main buf).apply (after Op.apply q f)) .main i = buf i := by
    intro i hi
    rw [sector_writeOp hi, herased i hi, NorMemory.erased_and]
  refine ⟨⟨?_, InOrder.throughout_concat.2 ⟨hbusy.path, fun _ => ?_⟩, hbusy.bak⟩, ?_, hburn⟩
  · simpa [or_imp, forall_and] using ⟨hbusy.on, NvConfig.on_writeOp⟩
  · rw [record_congr hends (headerValidLen_le hburn.1)]
    exact hburn.2
  · intro i hi
    rw [InOrder.after_append]
    exact hends i hi

/-- `main` has been written. -/
theorem Phase.mainDrained (hFG : ∀ r, F r → G r) (h : Phase nv F G buf f [] .mainWritten) :
    Phase nv F G buf f [] .mainDone := by
  obtain ⟨hbusy, hends, hburn⟩ := h
  have hends : ∀ i < nv.recordSize, nv.sector f .main i = buf i := hends
  refine ⟨rfl, ⟨dataIsValid_congr hends hburn.1, ?_⟩, (hbusy.bak.mono hFG).holds⟩
  rw [record_congr hends (headerValidLen_le hburn.1)]
  exact hburn.2

/-- The erase of `bak` is queued. -/
theorem MainDone.eraseBak (h : MainDone nv F G f q) :
    Phase nv F G buf f (q ++ [nv.eraseOp .bak]) .bakErased := by
  obtain ⟨rfl, hm, hb⟩ := h
  refine ⟨⟨?_, ⟨hb, holds_eraseOp⟩, hm⟩, fun i hi => ?_⟩
  · simpa using NvConfig.on_eraseOp
  · exact (congrArg (· &&& _) (sector_eraseOp hi f)).trans (NorMemory.erased_and _)

/-- `main` is read into the burn buffer. -/
theorem BakBusy.readMain (h : BakBusy nv F G f q)
    (hready : Ends nv .bak f q fun i b => b &&& nv.sector f .main i = nv.sector f .main i) :
    Phase nv F G (nv.sector (after Op.apply q f) .main) f q .bakWritePending := by
  have hsame := same_after (y := .main) h.on nofun f
  exact ⟨h, hready, hsame⟩

/-- The write of `bak` is queued. -/
theorem Phase.writeBak (hFG : ∀ r, F r → G r) (h : Phase nv F G buf f q .bakWritePending) :
    Phase nv F G buf f (q ++ [nv.writeOp .bak buf]) .bakWritten := by
  obtain ⟨hbusy, hready, hcopy⟩ := h
  have hends : ∀ i < nv.recordSize,
      nv.sector ((nv.writeOp .bak buf).apply (after Op.apply q f)) .bak i =
        nv.sector f .main i := by
    intro i hi
    rw [sector_writeOp hi, hcopy i hi]
    exact hready i hi
  refine ⟨⟨?_, InOrder.throughout_concat.2 ⟨hbusy.path, fun _ => ?_⟩, hbusy.main⟩, ?_⟩
  · simpa [or_imp, forall_and] using ⟨hbusy.on, NvConfig.on_writeOp⟩
  · rw [record_congr hends (headerValidLen_le hbusy.main.1)]
    exact hFG _ hbusy.main.2
  · intro i hi
    rw [InOrder.after_append]
    exact hends i hi

/-- `bak` has been written. -/
theorem Phase.bakDrained (hFG : ∀ r, F r → G r) (h : Phase nv F G buf f [] .bakWritten) :
    Phase nv F G buf f [] .idle := by
  obtain ⟨hbusy, hends⟩ := h
  have hends : ∀ i < nv.recordSize, nv.sector f .bak i = nv.sector f .main i := hends
  refine ⟨rfl, hbusy.main.holds, ⟨dataIsValid_congr hends hbusy.main.1, ?_⟩, fun hv => ?_⟩
  · rw [record_congr hends (headerValidLen_le hbusy.main.1)]
    exact hFG _ hbusy.main.2
  · rw [hbusy.main.1] at hv
    cases hv

end Phases

/-! ### The invariant -/

/-- The state in which a synchronous flush makes its flash call. -/
def SyncPoint.At : SyncPoint → NvState → Prop
  | .mainErase, st | .mainEraseFlush, st => st = .idle ∨ st = .mainErasing
  | .mainWrite, st | .mainWriteFlush, st => st = .mainWritePending
  | .mainDrain, st => st = .mainWritten
  | .bakErase, st | .bakEraseFlush, st => st = .mainDone ∨ st = .bakErasing
  | .bakWrite, st | .bakWriteFlush, st => st = .bakWritePending
  | .bakDrain, st => st = .bakWritten

/-- The invariant: `F` are the records that a restart may load, `G` those that a valid sector may
hold. -/
structure Inv (nv : NvConfig) (F G : List UInt8 → Prop) (s : NvSystem) : Prop where
  phase : Phase nv F G s.burnBuf s.flash s.queue s.state
  sync : ∀ p, s.sync = some p → p.At s.state

section Steps

variable {s s' : NvSystem} {ok : Bool}

theorem Inv.mono (hF : ∀ r, F r → R r) (hG : ∀ r, G r → R' r) (h : Inv nv F G s) :
    Inv nv R R' s := ⟨h.phase.mono hF hG, h.sync⟩

/-- Between two calls only the phase matters. -/
theorem Inv.of_none (hp : Phase nv F G s.burnBuf s.flash s.queue s.state) (hs : s.sync = none) :
    Inv nv F G s := ⟨hp, fun p h => by simp [hs] at h⟩

theorem takeSnapshot_eq : takeSnapshot nv s =
    some { s with
      burnBuf := recordBytes nv s.ram
      state := .mainWritePending
      isUpdate := false } := by
  simp only [takeSnapshot, dataIsValid_recordBytes, if_true]

theorem Inv.flushMainAsync (hFG : ∀ r, F r → G r) (h : Inv nv F G s) (hsync : s.sync = none)
    (hstep : flushMainAsync nv s ok = some s')
    (hkeep : ok = true → s.state = .idle ∨ s.state = .mainErasing →
      F (record (nv.sector s.flash .bak)))
    (htaken : s.state = .mainErased → F (record s'.burnBuf)) : Inv nv F G s' := by
  have hp := h.phase
  unfold Nv.flushMainAsync at hstep
  split at hstep
  case h_1 hst =>
    rw [hst] at hp
    cases ok with
    | true =>
      obtain rfl := Option.some.inj hstep
      exact .of_none (AtRest.eraseMain hp (hkeep rfl (.inl hst))) hsync
    | false =>
      obtain rfl := Option.some.inj hstep
      exact .of_none (hp) hsync
  case h_2 hst =>
    rw [hst] at hp
    cases ok with
    | true =>
      obtain rfl := Option.some.inj hstep
      exact .of_none (AtRest.eraseMain hp (hkeep rfl (.inr hst))) hsync
    | false =>
      obtain rfl := Option.some.inj hstep
      exact .of_none (hp) hsync
  case h_3 hst =>
    rw [hst] at hp
    rw [takeSnapshot_eq] at hstep
    obtain rfl := Option.some.inj hstep
    exact .of_none (hp.snapshot ⟨dataIsValid_recordBytes, htaken hst⟩) hsync
  case h_4 hst =>
    rw [hst] at hp
    cases ok with
    | true =>
      obtain rfl := Option.some.inj hstep
      exact .of_none (hp.writeMain) hsync
    | false =>
      obtain rfl := Option.some.inj hstep
      exact h
  case h_5 hst =>
    rw [hst] at hp
    split_ifs at hstep with hq
    · obtain rfl := Option.some.inj hstep
      rw [List.isEmpty_iff] at hq
      rw [hq] at hp
      exact .of_none (hq ▸ hp.mainDrained hFG) hsync
    · obtain rfl := Option.some.inj hstep
      exact h
  case h_6 => cases hstep

theorem Inv.flushBakAsync (hFG : ∀ r, F r → G r) (h : Inv nv F G s) (hsync : s.sync = none)
    (hstep : flushBakAsync nv s ok = some s') : Inv nv F G s' := by
  have hp := h.phase
  unfold Nv.flushBakAsync at hstep
  cases hst : s.state <;> simp only [hst] at hstep hp <;> try cases hstep
  case mainDone =>
    cases ok with
    | true =>
      obtain rfl := Option.some.inj hstep
      exact .of_none (MainDone.eraseBak hp) hsync
    | false =>
      obtain rfl := Option.some.inj hstep
      exact .of_none (hp) hsync
  case bakErasing =>
    cases ok with
    | true =>
      obtain rfl := Option.some.inj hstep
      exact .of_none (MainDone.eraseBak hp) hsync
    | false =>
      obtain rfl := Option.some.inj hstep
      exact .of_none (hp) hsync
  case bakErased => exact .of_none (BakBusy.readMain hp.1 hp.2) hsync
  case bakWritting => exact hp.elim
  case bakWritePending =>
    cases ok with
    | true =>
      obtain rfl := Option.some.inj hstep
      exact .of_none (hp.writeBak hFG) hsync
    | false =>
      obtain rfl := Option.some.inj hstep
      exact h
  case bakWritten =>
    split_ifs at hstep with hq
    · obtain rfl := Option.some.inj hstep
      rw [List.isEmpty_iff] at hq
      rw [hq] at hp
      exact .of_none (hq ▸ hp.bakDrained hFG) hsync
    · obtain rfl := Option.some.inj hstep
      exact h

/-! ### The synchronous path -/

/-- A synchronous flush stands at a flash call of its state. -/
theorem Inv.of_some {p : SyncPoint} (hp : Phase nv F G s.burnBuf s.flash s.queue s.state)
    (hs : s.sync = some p) (hat : p.At s.state) : Inv nv F G s :=
  ⟨hp, fun p' h => by
    obtain rfl : p = p' := Option.some.inj (hs.symm.trans h)
    exact hat⟩

theorem inv_syncMainWrite (hp : Phase nv F G s.burnBuf s.flash s.queue s.state)
    (hst : s.state = .mainWritePending ∨ s.state = .mainWritten) :
    Inv nv F G (syncMainWrite s) := by
  rcases hst with hst | hst
  · exact .of_some (p := .mainWrite) hp (by simp [syncMainWrite, hst]) hst
  · exact .of_some (p := .mainDrain) hp (by simp [syncMainWrite, hst]) hst

theorem inv_syncMainSnapshot (hp : Phase nv F G s.burnBuf s.flash s.queue s.state)
    (hst : s.state = .mainErased ∨ s.state = .mainWritePending ∨ s.state = .mainWritten)
    (hstep : syncMainSnapshot nv s = some s')
    (htaken : s.state = .mainErased → F (record s'.burnBuf)) : Inv nv F G s' := by
  unfold syncMainSnapshot at hstep
  split_ifs at hstep with he
  · rw [takeSnapshot_eq, Option.map_some] at hstep
    obtain rfl := Option.some.inj hstep
    rw [he] at hp
    exact inv_syncMainWrite (hp.snapshot ⟨dataIsValid_recordBytes, htaken he⟩) (.inl rfl)
  · obtain rfl := Option.some.inj hstep
    exact inv_syncMainWrite hp (hst.resolve_left he)

theorem inv_syncBakWrite (hp : Phase nv F G s.burnBuf s.flash s.queue s.state)
    (hst : s.state = .bakWritePending ∨ s.state = .bakWritten) :
    Inv nv F G (syncBakWrite s) := by
  rcases hst with hst | hst
  · exact .of_some (p := .bakWrite) hp (by simp [syncBakWrite, hst]) hst
  · exact .of_some (p := .bakDrain) hp (by simp [syncBakWrite, hst]) hst

theorem inv_syncBakRead (hp : Phase nv F G s.burnBuf s.flash s.queue s.state)
    (hst : s.state = .bakErased ∨ s.state = .bakWritePending ∨ s.state = .bakWritten) :
    Inv nv F G (syncBakRead nv s) := by
  unfold syncBakRead
  split_ifs with h
  · refine inv_syncBakWrite ?_ (.inl rfl)
    rcases h with h | h
    · rw [h] at hp
      exact BakBusy.readMain hp.1 hp.2
    · -- a copy that has been written already is written once more
      rw [h] at hp
      exact BakBusy.readMain hp.1 fun i hi =>
        (congrArg (· &&& _) (hp.2 i hi)).trans UInt8.and_self
  · rcases hst with hst | hst | hst
    · exact absurd (.inl hst) h
    · exact inv_syncBakWrite hp (.inl hst)
    · exact absurd (.inr hst) h

theorem inv_syncBak (hp : Phase nv F G s.burnBuf s.flash s.queue s.state)
    (hst : s.state.isMain = false) : Inv nv F G (syncBak nv s) := by
  unfold syncBak
  split_ifs with h
  · exact .of_some (p := .bakErase) hp rfl h
  · refine inv_syncBakRead hp ?_
    cases h' : s.state <;> simp [h', NvState.isMain] at hst h ⊢ <;> rw [h'] at hp <;> exact hp.elim

theorem inv_flushSync (hp : Phase nv F G s.burnBuf s.flash s.queue s.state)
    (hstep : flushSync nv s = some s')
    (htaken : s.state = .mainErased → F (record s'.burnBuf)) : Inv nv F G s' := by
  unfold flushSync at hstep
  split_ifs at hstep with hidle hmain
  · obtain rfl := Option.some.inj hstep
    exact .of_none hp rfl
  · unfold syncMain at hstep
    split_ifs at hstep with he
    · obtain rfl := Option.some.inj hstep
      exact .of_some (p := .mainErase) hp rfl he
    · refine inv_syncMainSnapshot hp ?_ hstep htaken
      cases h' : s.state <;> simp [h', NvState.isMain] at hmain he ⊢
      rw [h'] at hp
      exact hp.elim
  · obtain rfl := Option.some.inj hstep
    exact inv_syncBak hp (by simpa using hmain)

/-- A synchronous flush keeps the invariant when it goes on. -/
theorem Inv.resume (hFG : ∀ r, F r → G r) (h : Inv nv F G s) {p : SyncPoint}
    (hsync : s.sync = some p) (hstep : resume nv s ok p = some s')
    (hkeep : ok = true → p = .mainErase → F (record (nv.sector s.flash .bak)))
    (htaken : s.state ≠ .mainWritePending → s'.state = .mainWritePending →
      F (record s'.burnBuf)) : Inv nv F G s' := by
  have hp := h.phase
  have hat := h.sync p hsync
  cases p with
  | mainErase =>
    have hrest : AtRest nv F G s.flash s.queue := by
      rcases hat with hat | hat <;> rw [hat] at hp <;> exact hp
    cases ok with
    | true =>
      have hp' : Phase nv F G s.burnBuf s.flash (s.queue ++ [nv.eraseOp .main]) .mainErased :=
        hrest.eraseMain (hkeep rfl rfl)
      have hstep : syncMainSnapshot nv { s with
        state := .mainErased, queue := s.queue ++ [nv.eraseOp .main] } = some s' := hstep
      refine inv_syncMainSnapshot hp' (.inl rfl) hstep fun _ => ?_
      rw [syncMainSnapshot, if_pos rfl, takeSnapshot_eq, Option.map_some] at hstep
      obtain rfl := Option.some.inj hstep
      exact htaken (by rcases hat with hat | hat <;> simp [hat]) rfl
    | false =>
      obtain rfl := Option.some.inj hstep
      exact .of_some (p := .mainEraseFlush) hp rfl hat
  | mainEraseFlush =>
    obtain rfl := Option.some.inj hstep
    cases ok with
    | true => exact .of_some (p := .mainErase) hp rfl hat
    | false => exact .of_some (p := .mainEraseFlush) hp rfl hat
  | mainWrite =>
    have hat : s.state = .mainWritePending := hat
    cases ok with
    | true =>
      obtain rfl := Option.some.inj hstep
      rw [hat] at hp
      exact .of_some (p := .mainDrain) hp.writeMain rfl rfl
    | false =>
      obtain rfl := Option.some.inj hstep
      exact .of_some (p := .mainWriteFlush) hp rfl hat
  | mainWriteFlush =>
    obtain rfl := Option.some.inj hstep
    cases ok with
    | true => exact .of_some (p := .mainWrite) hp rfl hat
    | false => exact .of_some (p := .mainWriteFlush) hp rfl hat
  | mainDrain =>
    have hat : s.state = .mainWritten := hat
    simp only [Nv.resume] at hstep
    split_ifs at hstep with hq
    · obtain rfl := Option.some.inj hstep
      rw [List.isEmpty_iff] at hq
      rw [hat, hq] at hp
      exact inv_syncBak (hq ▸ hp.mainDrained hFG) rfl
    · obtain rfl := Option.some.inj hstep
      exact h
  | bakErase =>
    have hdone : MainDone nv F G s.flash s.queue := by
      rcases hat with hat | hat <;> rw [hat] at hp <;> exact hp
    cases ok with
    | true =>
      obtain rfl := Option.some.inj hstep
      exact inv_syncBakRead hdone.eraseBak (.inl rfl)
    | false =>
      obtain rfl := Option.some.inj hstep
      exact .of_some (p := .bakEraseFlush) hp rfl hat
  | bakEraseFlush =>
    obtain rfl := Option.some.inj hstep
    cases ok with
    | true => exact .of_some (p := .bakErase) hp rfl hat
    | false => exact .of_some (p := .bakEraseFlush) hp rfl hat
  | bakWrite =>
    have hat : s.state = .bakWritePending := hat
    cases ok with
    | true =>
      obtain rfl := Option.some.inj hstep
      rw [hat] at hp
      exact .of_some (p := .bakDrain) (hp.writeBak hFG) rfl rfl
    | false =>
      obtain rfl := Option.some.inj hstep
      exact .of_some (p := .bakWriteFlush) hp rfl hat
  | bakWriteFlush =>
    obtain rfl := Option.some.inj hstep
    cases ok with
    | true => exact .of_some (p := .bakWrite) hp rfl hat
    | false => exact .of_some (p := .bakWriteFlush) hp rfl hat
  | bakDrain =>
    have hat : s.state = .bakWritten := hat
    simp only [Nv.resume] at hstep
    split_ifs at hstep with hq
    · rw [List.isEmpty_iff] at hq
      rw [hat, hq] at hp
      have hp' : Phase nv F G s.burnBuf s.flash s.queue .idle := hq ▸ hp.bakDrained hFG
      exact inv_flushSync hp' hstep nofun
    · obtain rfl := Option.some.inj hstep
      exact h

/-! ### One step of the system -/

/-- The assumption on interrupted operations: the checksum detects a torn sector. -/
def TornDetected (nv : NvConfig) (s : NvSystem) : Event → Prop
  | .suspend cells => ∀ op q, s.queue = op :: q → op.Partial s.flash cells ∧
      ∀ x, dataIsValid nv (nv.sector cells x) = true →
        Good nv (· = record (nv.sector cells x)) s.flash x ∨
          Good nv (· = record (nv.sector cells x)) (op.apply s.flash) x
  | _ => True

/-- The erase of `main` at the start of a flush is queued. -/
def ErasesMain (s : NvSystem) : Event → Prop
  | .flushAsync ok =>
    ok = true ∧ (s.state = .idle ∧ s.isUpdate = true ∨ s.state = .mainErasing)
  | .resume ok => ok = true ∧ s.sync = some .mainErase
  | _ => False

theorem state_of_snapshot (hst : s.state = .mainErased) :
    (∀ ok, Nv.flushMainAsync nv s ok = some s' → s'.state = .mainWritePending) ∧
      (flushSync nv s = some s' → s'.state = .mainWritePending) := by
  constructor
  · intro ok h
    simp only [Nv.flushMainAsync, hst, takeSnapshot_eq] at h
    exact Option.some.inj h ▸ rfl
  · intro h
    simp only [flushSync, syncMain, syncMainSnapshot, hst, takeSnapshot_eq] at h
    exact Option.some.inj h ▸ rfl

/-- The erase of `main` is only queued while nothing else is. -/
theorem Inv.atRest {e : Event} (h : Inv nv F G s) (he : ErasesMain s e) :
    AtRest nv F G s.flash s.queue := by
  have hp := h.phase
  have hst : s.state = .idle ∨ s.state = .mainErasing := by
    cases e with
    | flushAsync ok => exact he.2.imp_left And.left
    | resume ok => exact h.sync _ he.2
    | _ => exact he.elim
  rcases hst with hst | hst <;> rw [hst] at hp <;> exact hp

/-- Every step but a restart keeps the invariant, when the erase of `main` leaves a backup that a
restart may load and the new snapshot may be loaded. -/
theorem Inv.step {e : Event} (hFG : ∀ r, F r → G r) (h : Inv nv F G s)
    (hstep : step nv s e = some s') (hboot : e ≠ .boot) (htorn : TornDetected nv s e)
    (hkeep : ErasesMain s e → F (record (nv.sector s.flash .bak)))
    (htaken : s.state ≠ .mainWritePending → s'.state = .mainWritePending →
      F (record s'.burnBuf)) : Inv nv F G s' := by
  have hp := h.phase
  cases e with
  | ram payload =>
    obtain rfl := Option.some.inj hstep
    exact ⟨hp, h.sync⟩
  | update =>
    obtain rfl := Option.some.inj hstep
    exact ⟨hp, h.sync⟩
  | complete =>
    cases hq : s.queue with
    | nil => simp [Nv.step, hq] at hstep
    | cons op q =>
      simp only [Nv.step, hq, Option.some.injEq] at hstep
      subst hstep
      rw [hq] at hp
      exact ⟨(Executes.complete op q).phase hp, h.sync⟩
  | suspend cells =>
    cases hq : s.queue with
    | nil => simp [Nv.step, hq] at hstep
    | cons op q =>
      obtain ⟨hpart, hd⟩ := htorn op q hq
      simp only [Nv.step, hq, List.isEmpty_cons, Bool.false_eq_true, if_false,
        Option.some.injEq] at hstep
      subst hstep
      rw [hq] at hp
      exact ⟨(Executes.interrupt op q hpart hd).phase hp, h.sync⟩
  | flushAsync ok =>
    simp only [Nv.step] at hstep
    split_ifs at hstep with hsync
    have hsync : s.sync = none := by simpa using hsync
    unfold flushAsync at hstep
    split_ifs at hstep with hidle hmain
    · obtain rfl := Option.some.inj hstep
      exact h
    · refine h.flushMainAsync hFG hsync hstep (fun hok hst => hkeep ⟨hok, ?_⟩) fun hst => ?_
      · rcases hst with hst | hst
        · exact .inl ⟨hst, by simpa [hst] using hidle⟩
        · exact .inr hst
      · exact htaken (by simp [hst]) ((state_of_snapshot hst).1 ok hstep)
    · exact h.flushBakAsync hFG hsync hstep
  | flushSync =>
    simp only [Nv.step] at hstep
    split_ifs at hstep with hsync
    exact inv_flushSync hp hstep fun hst =>
      htaken (by simp [hst]) ((state_of_snapshot hst).2 hstep)
  | resume ok =>
    obtain ⟨p, hsync, hstep⟩ := Option.bind_eq_some_iff.1 hstep
    exact h.resume hFG hsync hstep (fun hok hpe => hkeep ⟨hok, hpe ▸ hsync⟩) htaken
  | boot => exact absurd rfl hboot

end Steps

/-! ### Power losses -/

/-- A restart loads a record with the property `F`. -/
structure Recoverable (nv : NvConfig) (F G : List UInt8 → Prop) (f : Content) : Prop where
  loaded : Good nv F f (loadedSector nv f)
  holds : ∀ x, Holds nv G f x

/-- The power may be lost in every phase. -/
theorem Inv.recoverable {s : NvSystem} (hFG : ∀ r, F r → G r) (h : Inv nv F G s) :
    Recoverable nv F G s.flash := by
  have hp := h.phase
  have hrest : AtRest nv F G s.flash s.queue → Recoverable nv F G s.flash := by
    rintro ⟨-, hm, hb, hfall⟩
    refine ⟨?_, fun x => ?_⟩
    · unfold loadedSector
      split_ifs with hv
      · exact ⟨hv, hm hv⟩
      · exact ⟨hb.1, hfall (by simpa using hv)⟩
    · cases x with
      | main => exact hm.mono hFG
      | bak => exact hb.holds
  have hmain : MainBusy nv F s.flash s.queue → Recoverable nv F G s.flash := by
    rintro ⟨-, hpath, hb⟩
    refine ⟨?_, fun x => ?_⟩
    · unfold loadedSector
      split_ifs with hv
      · exact ⟨hv, hpath.now hv⟩
      · exact hb
    · cases x with
      | main => exact hpath.now.mono hFG
      | bak => exact (hb.mono hFG).holds
  have hdone : Good nv F s.flash .main → Holds nv G s.flash .bak →
      Recoverable nv F G s.flash := by
    intro hm hb
    refine ⟨?_, fun x => ?_⟩
    · rw [loadedSector, if_pos hm.1]
      exact hm
    · cases x with
      | main => exact (hm.mono hFG).holds
      | bak => exact hb
  cases hst : s.state <;> rw [hst] at hp
  case idle => exact hrest hp
  case mainErasing => exact hrest hp
  case mainErased => exact hmain hp.1
  case mainWritePending => exact hmain hp.1
  case mainWritten => exact hmain hp.1
  case mainDone => exact hdone hp.main hp.bak
  case bakErasing => exact hdone hp.main hp.bak
  case bakErased => exact hdone hp.1.main hp.1.path.now
  case bakWritePending => exact hdone hp.1.main hp.1.path.now
  case bakWritten => exact hdone hp.1.main hp.1.path.now
  case mainWritting => exact hp.elim
  case bakWritting => exact hp.elim
  case bakDone => exact hp.elim

/-- The record in RAM starts with the data `r`. -/
def Loads (r : List UInt8) (s : NvSystem) : Prop := (List.range r.length).map s.ram = r

theorem flushSync_ram {s s' : NvSystem} (h : flushSync nv s = some s') : s'.ram = s.ram := by
  unfold flushSync syncMain syncMainSnapshot at h
  split_ifs at h
  · exact Option.some.inj h ▸ rfl
  · exact Option.some.inj h ▸ rfl
  · rw [takeSnapshot_eq, Option.map_some] at h
    exact Option.some.inj h ▸ rfl
  · exact Option.some.inj h ▸ rfl
  · obtain rfl := Option.some.inj h
    unfold syncBak syncBakRead
    split_ifs <;> rfl

/-- The data of a valid sector is copied to RAM as a whole. -/
theorem loads_overlay {s : NvSystem} {c : Content} (hc : dataIsValid nv c = true)
    (hram : s.ram = overlay 0 nv.validLen (fun i => c (headerSize + i)) nv.initial) :
    Loads (record c) s := by
  have hlen : (record c).length = headerValidLen c := by simp [record]
  rw [Loads, hlen, record, hram]
  refine List.map_congr_left fun i hi => ?_
  have := List.mem_range.1 hi
  have := headerValidLen_le hc
  rw [NorMemory.overlay_of_inRange ⟨Nat.zero_le i, by omega⟩, Nat.sub_zero]

/-- The system after a restart has loaded a record. -/
def booted (nv : NvConfig) (f : Content) (isUpdate : Bool) (state : NvState) : NvSystem :=
  { isUpdate, state, burnBuf := fun _ => 0, flash := f, queue := [], sync := none
    ram := overlay 0 nv.validLen
      (fun i => nv.sector f (loadedSector nv f) (headerSize + i)) nv.initial }

/-- The three ways to load a record. -/
theorem nvRecordExtensionInit_eq {f : Content}
    (h : dataIsValid nv (nv.sector f (loadedSector nv f)) = true) :
    nvRecordExtensionInit nv f =
      if dataIsValid nv (nv.sector f .main) = false then flushSync nv (booted nv f true .idle)
      else if dataIsValid nv (nv.sector f .bak) = false then
        flushSync nv (booted nv f true .mainDone)
      else some (booted nv f false .idle) := by
  cases hm : dataIsValid nv (nv.sector f .main) <;>
    cases hb : dataIsValid nv (nv.sector f .bak)
  · simp [loadedSector, hm, hb] at h
  all_goals simp [nvRecordExtensionInit, hm, hb, booted]

/-- A restart from a recoverable flash loads the record and starts over with the invariant. -/
theorem Recoverable.boot {f : Content} (h : Recoverable nv F G f) :
    ∃ s, nvRecordExtensionInit nv f = some s ∧ Inv nv F G s ∧
      Loads (record (nv.sector f (loadedSector nv f))) s := by
  obtain ⟨⟨hv, hF⟩, hG⟩ := h
  have hflush : ∀ isUpdate state s, flushSync nv (booted nv f isUpdate state) = some s →
      Loads (record (nv.sector f (loadedSector nv f))) s :=
    fun _ _ _ hs => loads_overlay hv (flushSync_ram hs)
  rw [nvRecordExtensionInit_eq hv]
  by_cases hm : dataIsValid nv (nv.sector f .main) = true
  · have hl : loadedSector nv f = .main := by rw [loadedSector, if_pos hm]
    have hmain : Good nv F f .main := by
      rw [hl] at hF
      exact ⟨hm, hF⟩
    rw [if_neg (by simp [hm])]
    split_ifs with hb
    · -- the backup is written
      exact ⟨_, rfl,
        inv_flushSync (s := booted nv f true .mainDone) ⟨rfl, hmain, hG .bak⟩ rfl nofun,
        hflush true .mainDone _ rfl⟩
    · -- nothing is flushed
      have hb : dataIsValid nv (nv.sector f .bak) = true := by simpa using hb
      have hrest : AtRest nv F G f [] :=
        ⟨rfl, hmain.holds, ⟨hb, hG .bak hb⟩, fun hv' => absurd hv' (by simp [hm])⟩
      exact ⟨_, rfl, .of_none hrest rfl, loads_overlay hv rfl⟩
  · have hm : dataIsValid nv (nv.sector f .main) = false := by simpa using hm
    have hl : loadedSector nv f = .bak := by simp [loadedSector, hm]
    rw [hl] at hF hv
    -- `main` is written from the backup
    rw [if_pos hm]
    have hrest : AtRest nv F G f [] :=
      ⟨rfl, fun hv' => by simp [hm] at hv', ⟨hv, hG .bak hv⟩, fun _ => hF⟩
    exact ⟨_, rfl, inv_flushSync (s := booted nv f true .idle) hrest rfl nofun,
      hflush true .idle _ rfl⟩

end EarbudFirmware.Nv
