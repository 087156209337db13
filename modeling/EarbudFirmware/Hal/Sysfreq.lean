import Mathlib.Order.Lattice
import Mathlib.Data.List.FinRange
import Mathlib.Order.Basic
import Mathlib.Tactic.SplitIfs

/-!
# System frequency arbitration

Each user requests a system frequency, and the highest request wins, but not below a minimum that is
set apart. The user with the highest request is cached. Before the first request there is no such
user, and the current frequency is read back from the clock registers.

## Main definitions

* `SysClk`, `halCmuSysSetFreq`, `halCmuSysGetFreq` — the clock registers
* `Sysfreq` — the requests, the cached user, the minimum and the clock
* `Sysfreq.req`, `Sysfreq.setMinFreq`, `Sysfreq.incMinFreq` — the functions of `hal_sysfreq.c`
* `Arbitrated` — the cached user has the highest request, and the clock serves it

## Main results

* `arbitrated_run` — from the first request on, after any calls
-/

namespace EarbudFirmware.Hal

/-! ### Frequencies -/

/-- `HAL_CMU_FREQ_T`. -/
inductive CmuFreq where
  | freq32K | freq6P5M | freq13M | freq26M | freq52M | freq78M | freq104M | freq208M
  deriving DecidableEq

namespace CmuFreq

/-- The number of a frequency. -/
def index : CmuFreq → Nat
  | freq32K => 0
  | freq6P5M => 1
  | freq13M => 2
  | freq26M => 3
  | freq52M => 4
  | freq78M => 5
  | freq104M => 6
  | freq208M => 7

/-- The frequency of a number below `HAL_CMU_FREQ_QTY`. -/
def ofIndex : Nat → Option CmuFreq
  | 0 => some freq32K
  | 1 => some freq6P5M
  | 2 => some freq13M
  | 3 => some freq26M
  | 4 => some freq52M
  | 5 => some freq78M
  | 6 => some freq104M
  | 7 => some freq208M
  | _ => none

@[simp] theorem ofIndex_index (f : CmuFreq) : ofIndex f.index = some f := by cases f <;> rfl

theorem index_injective : Function.Injective index := fun f g h =>
  Option.some.inj ((ofIndex_index f).symm.trans ((congrArg ofIndex h).trans (ofIndex_index g)))

instance : LinearOrder CmuFreq := LinearOrder.lift' index index_injective

theorem freq32K_le (f : CmuFreq) : freq32K ≤ f := Nat.zero_le _

end CmuFreq

open CmuFreq

/-! ### The clock registers -/

/-- What the frequency setting depends on: `OSC_26M_X4_AUD2BB`, `FREQ_78M_USE_PLL`, `LOW_SYS_FREQ`
and `LOW_SYS_FREQ_6P5M`. -/
structure CmuBuild where
  osc26MX4Aud2bb : Bool
  freq78MUsePll : Bool
  lowSysFreq : Bool
  lowSysFreq6P5M : Bool

/-- The bits of `SYS_CLK_ENABLE` and the field `CMU_CFG_DIV_SYS` of `SYS_DIV`. -/
structure SysClk where
  rstnDivSys : Bool
  selOsc2Sys : Bool
  selOsc4Sys : Bool
  selSlowSys : Bool
  selOscx2Sys : Bool
  selFastSys : Bool
  selPllSys : Bool
  bypassDivSys : Bool
  divSys : Nat
  deriving DecidableEq

/-- The settings for `HAL_CMU_FREQ_26M`. -/
def SysClk.set26M (r : SysClk) : SysClk :=
  { r with
    selSlowSys := true, selOscx2Sys := true, rstnDivSys := false, selOsc2Sys := false
    selFastSys := false, selPllSys := false, bypassDivSys := false }

/-- The settings for `HAL_CMU_FREQ_13M`. -/
def SysClk.set13M (b : CmuBuild) (r : SysClk) : SysClk :=
  if b.lowSysFreq then
    { r with
      selOsc2Sys := true, selSlowSys := true, selOscx2Sys := true, rstnDivSys := false
      selFastSys := false, selPllSys := false, bypassDivSys := false }
  else r.set26M

/-- The settings for a frequency that divides the one of the PLL. -/
def SysClk.setPll (r : SysClk) (div : Nat) : SysClk :=
  { r with
    selSlowSys := true, rstnDivSys := true, selOscx2Sys := true, selPllSys := true
    bypassDivSys := false, divSys := div }

/-- The settings for `HAL_CMU_FREQ_104M`. -/
def SysClk.set104M (b : CmuBuild) (r : SysClk) : SysClk :=
  if b.osc26MX4Aud2bb then
    { r with
      selSlowSys := true, selFastSys := true, rstnDivSys := false, selOscx2Sys := false
      bypassDivSys := false, selPllSys := false }
  else r.setPll 0

/-- `hal_cmu_sys_set_freq`, with no forced divider. -/
def halCmuSysSetFreq (b : CmuBuild) (freq : CmuFreq) (r : SysClk) : SysClk :=
  match freq with
  | .freq32K =>
    { r with
      selOscx2Sys := true, rstnDivSys := false, selOsc2Sys := false, selOsc4Sys := false
      selSlowSys := false, selFastSys := false, selPllSys := false, bypassDivSys := false }
  | .freq6P5M =>
    if b.lowSysFreq ∧ b.lowSysFreq6P5M then
      { r with
        selOsc4Sys := true, selOscx2Sys := true, rstnDivSys := false, selSlowSys := false
        selFastSys := false, selPllSys := false, bypassDivSys := false }
    else r.set13M b
  | .freq13M => r.set13M b
  | .freq26M => r.set26M
  | .freq52M =>
    { r with
      selSlowSys := true, selOscx2Sys := true, selFastSys := true, rstnDivSys := false
      selPllSys := false, bypassDivSys := false }
  | .freq78M =>
    if ¬b.osc26MX4Aud2bb ∨ b.freq78MUsePll then r.setPll 1 else r.set104M b
  | .freq104M => r.set104M b
  | .freq208M =>
    { r with
      selSlowSys := true, selOscx2Sys := true, bypassDivSys := true, selPllSys := true
      rstnDivSys := false }

/-- `hal_cmu_sys_get_freq`. -/
def halCmuSysGetFreq (r : SysClk) : CmuFreq :=
  if r.selPllSys then
    if r.bypassDivSys then .freq208M
    else if r.divSys = 0 then .freq104M
    else if r.divSys = 1 then .freq78M
    else .freq52M
  else if r.selFastSys ∧ ¬r.selOscx2Sys then .freq104M
  else if r.selFastSys ∧ r.selOscx2Sys then .freq52M
  else if r.selSlowSys then .freq26M
  else .freq32K

/-- From 26M on, a frequency reads back as itself or as a higher one. -/
theorem le_halCmuSysGetFreq {b : CmuBuild} {freq : CmuFreq} (hfreq : freq26M ≤ freq) (r : SysClk) :
    freq ≤ halCmuSysGetFreq (halCmuSysSetFreq b freq r) := by
  cases freq with
  | freq32K => exact absurd hfreq (by decide)
  | freq6P5M => exact absurd hfreq (by decide)
  | freq13M => exact absurd hfreq (by decide)
  | freq26M => exact le_of_eq rfl
  | freq52M => exact le_of_eq rfl
  | freq78M =>
    unfold halCmuSysSetFreq SysClk.set104M
    dsimp only
    split_ifs
    · exact le_of_eq rfl
    · exact le_of_lt (show CmuFreq.freq78M < .freq104M by decide)
    · exact le_of_lt (show CmuFreq.freq78M < .freq104M by decide)
  | freq104M =>
    unfold halCmuSysSetFreq SysClk.set104M
    dsimp only
    split_ifs
    · exact le_of_eq rfl
    · exact le_of_eq rfl
  | freq208M => exact le_of_eq rfl

/-! ### The functions of `hal_sysfreq.c` -/

/-- `HAL_SYSFREQ_USER_QTY`. -/
def userQty : Nat := 37

/-- `HAL_SYSFREQ_USER_INIT`. -/
def userInit : Fin userQty := ⟨0, by decide⟩

/-- `sysfreq_per_user`, `top_user`, `min_sysfreq`, the clock registers, and the argument of the last
call of `hal_cmu_sys_set_freq`. -/
structure Sysfreq where
  perUser : Fin userQty → CmuFreq
  topUser : Option (Fin userQty)
  minSysfreq : CmuFreq
  clk : SysClk
  lastSet : CmuFreq

namespace Sysfreq

variable (b : CmuBuild) (s : Sysfreq)

/-- `hal_cmu_sys_set_freq`. -/
def cmuSysSetFreq (freq : CmuFreq) : Sysfreq :=
  { s with clk := halCmuSysSetFreq b freq s.clk, lastSet := freq }

/-- `hal_cmu_setup` sets 26M before the first request. -/
def boot (r : SysClk) : Sysfreq where
  perUser _ := .freq32K
  topUser := none
  minSysfreq := .freq32K
  clk := halCmuSysSetFreq b .freq26M r
  lastSet := .freq26M

/-- `hal_sysfreq_get`. -/
def get : CmuFreq :=
  match s.topUser with
  | some u => s.perUser u
  | none => halCmuSysGetFreq s.clk

/-- `hal_sysfreq_revise_freq`. -/
def reviseFreq (freq : CmuFreq) : CmuFreq :=
  let freq := if freq = .freq32K then .freq26M else freq
  if freq > s.minSysfreq then freq else s.minSysfreq

/-- `hal_sysfreq_set_min_freq`. -/
def setMinFreq (freq : CmuFreq) : Sysfreq :=
  if s.minSysfreq ≠ freq then
    let curFreq := s.get
    let s' := { s with minSysfreq := freq }
    if s.reviseFreq curFreq ≠ s'.reviseFreq curFreq then s'.cmuSysSetFreq b (s'.reviseFreq curFreq)
    else s'
  else s

/-- `hal_sysfreq_inc_min_freq`. -/
def incMinFreq (freq : CmuFreq) : Sysfreq :=
  if freq > s.minSysfreq then s.setMinFreq b freq else s

/-- The clock changes from the current frequency to `freq`, unless both are revised to the same. -/
def changeFreq (curFreq freq : CmuFreq) : Sysfreq :=
  if s.reviseFreq freq ≠ s.reviseFreq curFreq then s.cmuSysSetFreq b (s.reviseFreq freq) else s

/-- The loop of `hal_sysfreq_req` over the users. -/
def searchTop (perUser : Fin userQty → CmuFreq) : Fin userQty :=
  (List.finRange userQty).foldl (fun user i => if perUser user < perUser i then i else user)
    userInit

/-- `hal_sysfreq_req` behind the checks of its arguments. -/
def reqValid (user : Fin userQty) (freq : CmuFreq) : Sysfreq :=
  let curFreq := s.get
  let s' := { s with perUser := Function.update s.perUser user freq }
  if freq = curFreq then { s' with topUser := some user }
  else if freq > curFreq then { s' with topUser := some user }.changeFreq b curFreq freq
  else if s.topUser = some user then
    let user := searchTop s'.perUser
    let freq := s'.perUser user
    let s' := { s' with topUser := some user }
    if freq ≠ curFreq then s'.changeFreq b curFreq freq else s'
  else if s.topUser = none then
    { s' with topUser := some user }.changeFreq b curFreq freq
  else s'

/-- `hal_sysfreq_req`, with its return value. -/
def req (user freq : Nat) : Nat × Sysfreq :=
  if huser : user < userQty then
    match ofIndex freq with
    | none => (2, s)
    | some freq => (0, s.reqValid b ⟨user, huser⟩ freq)
  else (1, s)

end Sysfreq

/-- A call. -/
inductive SysfreqCall where
  | req (user freq : Nat)
  | setMinFreq (freq : CmuFreq)
  | incMinFreq (freq : CmuFreq)

/-- One call. -/
def sysfreqStep (b : CmuBuild) (s : Sysfreq) : SysfreqCall → Sysfreq
  | .req user freq => (s.req b user freq).2
  | .setMinFreq freq => s.setMinFreq b freq
  | .incMinFreq freq => s.incMinFreq b freq

/-- The clock that was set last is the one for `freq` under the minimum, or reads back as it. -/
def Clocked (s : Sysfreq) (freq : CmuFreq) : Prop :=
  s.lastSet = s.reviseFreq freq ∨ halCmuSysGetFreq s.clk = s.reviseFreq freq

/-- The cached user has the highest request, and the clock is the one for it. -/
structure Arbitrated (s : Sysfreq) : Prop where
  top : ∃ u, s.topUser = some u ∧ ∀ v, s.perUser v ≤ s.perUser u
  clocked : Clocked s s.get

/-- Nobody has requested a frequency yet; the minimum can have raised the clock. -/
structure Unrequested (b : CmuBuild) (s : Sysfreq) : Prop where
  topUser : s.topUser = none
  perUser : ∀ u, s.perUser u = .freq32K
  clk : ∃ r, s.clk = halCmuSysSetFreq b s.lastSet r
  le_lastSet : .freq26M ≤ s.lastSet
  min_le : s.minSysfreq ≤ halCmuSysGetFreq s.clk

namespace Sysfreq

variable {b : CmuBuild} {s : Sysfreq} {freq curFreq : CmuFreq} {u v : Fin userQty}

/-! ### Revised frequencies -/

theorem le_reviseFreq (freq : CmuFreq) : freq ≤ s.reviseFreq freq := by
  unfold reviseFreq
  dsimp only
  split_ifs with h32 hlt hlt
  · rw [h32]
    exact freq32K_le _
  · rw [h32]
    exact freq32K_le _
  · exact le_refl freq
  · exact not_lt.1 hlt

theorem min_le_reviseFreq (freq : CmuFreq) : s.minSysfreq ≤ s.reviseFreq freq := by
  unfold reviseFreq
  dsimp only
  split_ifs with h32 hlt hlt
  · exact le_of_lt hlt
  · exact le_refl _
  · exact le_of_lt hlt
  · exact le_refl _

theorem reviseFreq_of_min_le (h32 : freq ≠ .freq32K) (hmin : s.minSysfreq ≤ freq) :
    s.reviseFreq freq = freq := by
  unfold reviseFreq
  rw [if_neg h32]
  dsimp only
  split_ifs with hlt
  · rfl
  · exact le_antisymm hmin (not_lt.1 hlt)

theorem reviseFreq_of_le_min (h32 : freq ≠ .freq32K) (hmin : freq ≤ s.minSysfreq) :
    s.reviseFreq freq = s.minSysfreq := by
  unfold reviseFreq
  rw [if_neg h32]
  exact if_neg (not_lt.2 hmin)

/-! ### The cached user -/

/-- The loop finds a user with the highest request. -/
theorem foldl_searchTop (perUser : Fin userQty → CmuFreq) (l : List (Fin userQty))
    (u : Fin userQty) :
    perUser u ≤ perUser
        (l.foldl (fun user i => if perUser user < perUser i then i else user) u) ∧
      ∀ i ∈ l, perUser i ≤ perUser
        (l.foldl (fun user i => if perUser user < perUser i then i else user) u) := by
  induction l generalizing u with
  | nil => exact ⟨le_refl _, fun i hi => by cases hi⟩
  | cons x l ih =>
    rw [List.foldl_cons]
    obtain ⟨hfirst, hrest⟩ := ih (if perUser u < perUser x then x else u)
    have hboth : perUser u ≤ perUser (if perUser u < perUser x then x else u) ∧
        perUser x ≤ perUser (if perUser u < perUser x then x else u) := by
      split_ifs with hlt
      · exact ⟨le_of_lt hlt, le_refl _⟩
      · exact ⟨le_refl _, not_lt.1 hlt⟩
    refine ⟨le_trans hboth.1 hfirst, fun i hi => ?_⟩
    obtain rfl | hi := List.mem_cons.1 hi
    · exact le_trans hboth.2 hfirst
    · exact hrest i hi

theorem le_searchTop (perUser : Fin userQty → CmuFreq) (v : Fin userQty) :
    perUser v ≤ perUser (searchTop perUser) :=
  (foldl_searchTop perUser _ userInit).2 v (List.mem_finRange v)

/-! ### The clock -/

@[simp] theorem changeFreq_topUser : (s.changeFreq b curFreq freq).topUser = s.topUser := by
  unfold changeFreq
  split_ifs <;> rfl

@[simp] theorem changeFreq_perUser : (s.changeFreq b curFreq freq).perUser = s.perUser := by
  unfold changeFreq
  split_ifs <;> rfl

/-- The clock is changed when the revised frequencies differ, and may stay when they do not. -/
theorem clocked_changeFreq (h : Clocked s curFreq) :
    Clocked (s.changeFreq b curFreq freq) freq := by
  unfold changeFreq
  split_ifs with hne
  · exact .inl rfl
  · unfold Clocked
    rw [Decidable.not_not.1 hne]
    exact h

theorem get_eq (h : s.topUser = some u) : s.get = s.perUser u := by
  unfold get
  rw [h]

theorem get_eq_of_none (h : s.topUser = none) : s.get = halCmuSysGetFreq s.clk := by
  unfold get
  rw [h]

end Sysfreq

namespace Arbitrated

variable {b : CmuBuild} {s : Sysfreq} {u : Fin userQty}

theorem of_top (htop : s.topUser = some u) (hmax : ∀ v, s.perUser v ≤ s.perUser u)
    (hclk : Clocked s (s.perUser u)) : Arbitrated s :=
  ⟨⟨u, htop, hmax⟩, by rwa [Sysfreq.get_eq htop]⟩

/-- No request is above the current frequency. -/
theorem le_get (h : Arbitrated s) (v : Fin userQty) : s.perUser v ≤ s.get := by
  obtain ⟨u, htop, hmax⟩ := h.top
  rw [Sysfreq.get_eq htop]
  exact hmax v

/-- The minimum changes the clock only if it changes the revised frequency. -/
theorem setMinFreq (h : Arbitrated s) (freq : CmuFreq) : Arbitrated (s.setMinFreq b freq) := by
  obtain ⟨u, htop, hmax⟩ := h.top
  have hclk := h.clocked
  rw [Sysfreq.get_eq htop] at hclk
  unfold Sysfreq.setMinFreq
  dsimp only
  split_ifs with hne hrevised
  · refine of_top htop hmax (.inl ?_)
    rw [Sysfreq.get_eq htop]
    rfl
  · refine of_top htop hmax ?_
    rw [Decidable.not_not, Sysfreq.get_eq htop] at hrevised
    unfold Clocked at hclk
    rw [hrevised] at hclk
    exact hclk
  · exact h

end Arbitrated

namespace Unrequested

variable {b : CmuBuild} {s : Sysfreq} {u : Fin userQty}

theorem boot (b : CmuBuild) (r : SysClk) : Unrequested b (Sysfreq.boot b r) where
  topUser := rfl
  perUser _ := rfl
  clk := ⟨r, rfl⟩
  le_lastSet := le_refl _
  min_le := freq32K_le _

theorem le_clk (h : Unrequested b s) : .freq26M ≤ halCmuSysGetFreq s.clk := by
  obtain ⟨r, hr⟩ := h.clk
  rw [hr]
  exact le_trans h.le_lastSet (le_halCmuSysGetFreq h.le_lastSet r)

theorem clk_ne (h : Unrequested b s) : halCmuSysGetFreq s.clk ≠ .freq32K := by
  intro heq
  have hle := h.le_clk
  rw [heq] at hle
  exact absurd hle (by decide)

/-- The clock is not below the minimum, so that it is its own revised frequency. -/
theorem clocked (h : Unrequested b s) : Clocked s s.get := by
  rw [Sysfreq.get_eq_of_none h.topUser]
  exact .inr (Sysfreq.reviseFreq_of_min_le h.clk_ne h.min_le).symm

theorem setMinFreq (h : Unrequested b s) (freq : CmuFreq) :
    Unrequested b (s.setMinFreq b freq) := by
  have hget := Sysfreq.get_eq_of_none h.topUser
  have hrevised : s.reviseFreq s.get = s.get := by
    rw [hget]
    exact Sysfreq.reviseFreq_of_min_le h.clk_ne h.min_le
  have h32 : s.get ≠ .freq32K := hget ▸ h.clk_ne
  unfold Sysfreq.setMinFreq
  dsimp only
  split_ifs with hne hchange
  · -- the new minimum is above the clock, and becomes the clock
    have hlt : s.get < freq := by
      refine lt_of_not_ge fun hle => hchange ?_
      rw [hrevised]
      exact (Sysfreq.reviseFreq_of_min_le (s := { s with minSysfreq := freq }) h32 hle).symm
    have hnew : ({ s with minSysfreq := freq } : Sysfreq).reviseFreq s.get = freq :=
      Sysfreq.reviseFreq_of_le_min h32 (le_of_lt hlt)
    rw [hnew]
    have hle : .freq26M ≤ freq := le_trans h.le_clk (hget ▸ le_of_lt hlt)
    exact ⟨h.topUser, h.perUser, ⟨s.clk, rfl⟩, hle, le_halCmuSysGetFreq hle s.clk⟩
  · refine ⟨h.topUser, h.perUser, h.clk, h.le_lastSet, ?_⟩
    rw [Decidable.not_not, hrevised] at hchange
    rw [← hget, hchange]
    exact Sysfreq.min_le_reviseFreq (s := { s with minSysfreq := freq }) s.get
  · exact h

end Unrequested

/-! ### Requests -/

section Requests

variable {b : CmuBuild} {s : Sysfreq} {user : Fin userQty} {freq : CmuFreq}

theorem update_le {perUser : Fin userQty → CmuFreq} {f : CmuFreq}
    (hothers : ∀ v, v ≠ user → perUser v ≤ f) (hfreq : freq ≤ f) (v : Fin userQty) :
    Function.update perUser user freq v ≤ f := by
  by_cases hv : v = user
  · rw [hv, Function.update_self]
    exact hfreq
  · rw [Function.update_of_ne hv]
    exact hothers v hv

/-- A request of the user with the highest one, of another user, or the first one. -/
theorem arbitrated_reqValid (hle : ∀ v, s.perUser v ≤ s.get)
    (hcached : s.topUser = none → ∀ v, s.perUser v = .freq32K)
    (hclk : Clocked s s.get) : Arbitrated (s.reqValid b user freq) := by
  have hself : Function.update s.perUser user freq user = freq := Function.update_self _ _ _
  unfold Sysfreq.reqValid
  dsimp only
  split_ifs with heq hgt htop hne hnone
  · refine .of_top rfl (fun v => ?_) ?_
    · dsimp only
      rw [hself]
      exact update_le (fun v _ => heq ▸ hle v) (le_refl _) v
    · dsimp only
      rw [hself, heq]
      exact hclk
  · refine .of_top (u := user) (by simp) (fun v => ?_) ?_
    · rw [Sysfreq.changeFreq_perUser]
      dsimp only
      rw [hself]
      exact update_le (fun v _ => le_trans (hle v) (le_of_lt hgt)) (le_refl _) v
    · rw [Sysfreq.changeFreq_perUser]
      dsimp only
      rw [hself]
      exact Sysfreq.clocked_changeFreq hclk
  · refine .of_top (Sysfreq.changeFreq_topUser.trans rfl) (fun v => ?_) ?_
    · rw [Sysfreq.changeFreq_perUser]
      exact Sysfreq.le_searchTop _ v
    · rw [Sysfreq.changeFreq_perUser]
      exact Sysfreq.clocked_changeFreq hclk
  · refine .of_top rfl (Sysfreq.le_searchTop _) ?_
    dsimp only
    rw [Decidable.not_not.1 hne]
    exact hclk
  · refine .of_top (u := user) (by simp) (fun v => ?_) ?_
    · rw [Sysfreq.changeFreq_perUser]
      dsimp only
      rw [hself]
      exact update_le (fun v _ => hcached hnone v ▸ freq32K_le freq) (le_refl _) v
    · rw [Sysfreq.changeFreq_perUser]
      dsimp only
      rw [hself]
      exact Sysfreq.clocked_changeFreq hclk
  · -- the request of another user stays the highest one
    obtain ⟨u, hu⟩ := Option.ne_none_iff_exists'.1 hnone
    have hget := Sysfreq.get_eq hu
    have hu' : u ≠ user := fun h => htop (h ▸ hu)
    have hkeep : Function.update s.perUser user freq u = s.get := by
      rw [Function.update_of_ne hu', hget]
    refine .of_top hu (fun v => ?_) ?_
    · dsimp only
      rw [hkeep]
      exact update_le (fun v _ => hle v) (not_lt.1 hgt) v
    · dsimp only
      rw [hkeep]
      exact hclk

theorem Arbitrated.reqValid (h : Arbitrated s) : Arbitrated (s.reqValid b user freq) := by
  obtain ⟨u, htop, -⟩ := h.top
  exact arbitrated_reqValid h.le_get (fun hnone => by rw [htop] at hnone; cases hnone) h.clocked

theorem Unrequested.reqValid (h : Unrequested b s) : Arbitrated (s.reqValid b user freq) :=
  arbitrated_reqValid (fun v => h.perUser v ▸ freq32K_le _) (fun _ => h.perUser) h.clocked

theorem sysfreqStep_req (b : CmuBuild) (s : Sysfreq) (user : Fin userQty) (freq : CmuFreq) :
    sysfreqStep b s (.req user freq.index) = s.reqValid b user freq := by
  unfold sysfreqStep Sysfreq.req
  dsimp only
  rw [dif_pos user.isLt]
  simp

/-- A request with arguments that are not valid changes nothing. -/
theorem req_cases (b : CmuBuild) (s : Sysfreq) (user freq : Nat) :
    (s.req b user freq).2 = s ∨ ∃ u f, (s.req b user freq).2 = s.reqValid b u f := by
  unfold Sysfreq.req
  split_ifs with huser
  · cases hfreq : ofIndex freq with
    | none => exact .inl rfl
    | some f => exact .inr ⟨_, f, rfl⟩
  · exact .inl rfl

end Requests

/-! ### Runs -/

variable {b : CmuBuild} {s : Sysfreq}

theorem Arbitrated.step (h : Arbitrated s) (c : SysfreqCall) : Arbitrated (sysfreqStep b s c) := by
  cases c with
  | req user freq =>
    unfold sysfreqStep
    dsimp only
    obtain hreq | ⟨u, f, hreq⟩ := req_cases b s user freq
    · rwa [hreq]
    · rw [hreq]
      exact h.reqValid
  | setMinFreq freq => exact h.setMinFreq freq
  | incMinFreq freq =>
    unfold sysfreqStep Sysfreq.incMinFreq
    dsimp only
    split_ifs
    · exact h.setMinFreq freq
    · exact h

theorem Unrequested.step (h : Unrequested b s) (c : SysfreqCall) :
    Unrequested b (sysfreqStep b s c) ∨ Arbitrated (sysfreqStep b s c) := by
  cases c with
  | req user freq =>
    unfold sysfreqStep
    dsimp only
    obtain hreq | ⟨u, f, hreq⟩ := req_cases b s user freq
    · rw [hreq]
      exact .inl h
    · rw [hreq]
      exact .inr h.reqValid
  | setMinFreq freq => exact .inl (h.setMinFreq freq)
  | incMinFreq freq =>
    unfold sysfreqStep Sysfreq.incMinFreq
    dsimp only
    split_ifs
    · exact .inl (h.setMinFreq freq)
    · exact .inl h

theorem Arbitrated.run (h : Arbitrated s) (calls : List SysfreqCall) :
    Arbitrated (calls.foldl (sysfreqStep b) s) := by
  induction calls generalizing s with
  | nil => exact h
  | cons c calls ih => exact ih (h.step c)

theorem Unrequested.run (h : Unrequested b s) (calls : List SysfreqCall) :
    Unrequested b (calls.foldl (sysfreqStep b) s) ∨ Arbitrated (calls.foldl (sysfreqStep b) s) := by
  induction calls generalizing s with
  | nil => exact .inl h
  | cons c calls ih =>
    obtain hc | hc := h.step c
    · exact ih hc
    · exact .inr (hc.run calls)

/-- No user runs on a lower clock than requested. -/
theorem Arbitrated.le_clock (h : Arbitrated s) (v : Fin userQty) :
    s.perUser v ≤ max s.lastSet (halCmuSysGetFreq s.clk) := by
  have hle : s.perUser v ≤ s.reviseFreq s.get := le_trans (h.le_get v) (Sysfreq.le_reviseFreq s.get)
  obtain hclk | hclk := h.clocked
  · exact le_trans (hclk ▸ hle) (le_max_left _ _)
  · exact le_trans (hclk ▸ hle) (le_max_right _ _)

/-- From the first valid request on, after any calls, the cached user has the highest request and
the clock is the one for it. -/
theorem arbitrated_run (b : CmuBuild) (r : SysClk) (before after : List SysfreqCall)
    (user : Fin userQty) (freq : CmuFreq) :
    let s := (before ++ .req user freq.index :: after).foldl (sysfreqStep b) (.boot b r)
    Arbitrated s ∧ ∀ v, s.perUser v ≤ max s.lastSet (halCmuSysGetFreq s.clk) := by
  dsimp only
  have harbitrated : Arbitrated
      ((before ++ .req user freq.index :: after).foldl (sysfreqStep b) (.boot b r)) := by
    rw [List.foldl_append, List.foldl_cons, sysfreqStep_req]
    refine Arbitrated.run ?_ after
    obtain h | h := (Unrequested.boot b r).run before
    · exact h.reqValid
    · exact h.reqValid
  exact ⟨harbitrated, harbitrated.le_clock⟩

/-- Where 78M comes from the same clock as 104M, a first request of 104M leaves the clock as the
minimum of 78M has set it. -/
theorem not_lastSet_eq_reviseFreq :
    let s := [SysfreqCall.setMinFreq .freq78M, .req 0 CmuFreq.freq104M.index].foldl
      (sysfreqStep ⟨true, false, false, false⟩)
      (.boot ⟨true, false, false, false⟩
        ⟨false, false, false, false, false, false, false, false, 0⟩)
    s.topUser = some userInit ∧ s.lastSet = .freq78M ∧
      s.reviseFreq (s.perUser userInit) = .freq104M ∧
      s.lastSet ≠ s.reviseFreq (s.perUser userInit) := by
  decide +kernel

end EarbudFirmware.Hal
