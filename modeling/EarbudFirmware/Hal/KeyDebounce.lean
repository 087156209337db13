import EarbudFirmware.Hal.Key
import EarbudFirmware.Lib.Transition

/-!
# Key interrupts and the debounce handler

A level interrupt of a key disables itself and records the pin in a map; the debounce handler, which
a timer calls, moves the pins between three maps and enables the interrupts again. An interrupt may
come between any two accesses of the handler to the maps, but not while they are locked; it runs to
its end before the handler goes on.

## Main definitions

* `GpioKeys` — the maps, the interrupts and the timer, with the position in the handler
* `HandlerPc` — the positions in the handler, each before an access
* `gpioStep` — an interrupt, the expiry of the timer, or the next access of the handler
* `KeysHeld` — no pin is in two maps, no disabled interrupt is forgotten, and the timer is armed

## Main results

* `PinInv.irq`, `PinInv.turn` — the maps under an interrupt and under a step of the handler
* `keys_not_stuck` — the handler never asserts, and `KeysHeld` holds whenever it does not run
-/

namespace EarbudFirmware.Hal

open Transition (Along)

/-- The maps of `HAL_KEY_GPIOKEY_T`. -/
inductive PinMap where
  | debounce
  | dither
  | down
  deriving DecidableEq

/-- The keys of a board: the pins below `pinNum` that are configured, and their codes. -/
structure GpioKeyConfig where
  pinNum : Nat
  configured : Nat → Bool
  keyCode : Nat → KeyCode
  debounceInterval : UInt32
  ditherInterval : UInt32
  key : KeyConfig
  lt_pinNum : ∀ p, configured p = true → p < pinNum

/-- `time`, `code_down` and `need_timer` of the handler. -/
structure HandlerLocals where
  time : UInt32
  codeDown : KeyCode
  needTimer : Bool
  deriving DecidableEq

/-- The positions in `hal_key_debounce_handler`. A position names the next access; it carries the
copies of the maps, `down_added` and `dither_added`. -/
inductive HandlerPc where
  | off
  | entry
  | begin
  | check (x : HandlerLocals) (todo : List (PinMap × PinMap × Nat)) (first : Bool)
  | asserted
  | test (x : HandlerLocals) (m : PinMap) (todo : List Nat)
  | ditherTime (x : HandlerLocals)
  | copy (x : HandlerLocals) (m : PinMap) (todo got : List Nat)
  | ditherClear (x : HandlerLocals) (pinMap : List Nat)
  | ditherEnable (x : HandlerLocals) (pinMap : List Nat)
  | downRead (x : HandlerLocals) (pinMap : List Nat)
  | downClear (x : HandlerLocals) (gpio : Nat) (pinMap : List Nat)
  | downEnable (x : HandlerLocals) (gpio : Nat) (pinMap : List Nat)
  | debounceRead (x : HandlerLocals) (pinMap downAdded ditherAdded : List Nat)
  | debounceTime (x : HandlerLocals) (gpio : Nat) (pinMap downAdded ditherAdded : List Nat)
  | debounceDown (x : HandlerLocals) (gpio : Nat) (pinMap downAdded ditherAdded : List Nat)
  | debounceMove (x : HandlerLocals) (downAdded ditherAdded : List Nat)
  | need (x : HandlerLocals) (todo : List (PinMap × Nat))
  | keys (x : HandlerLocals)
  | restart (x : HandlerLocals)
  | stop
  | start

/-- `gpio_key`, the interrupts of the pins, `timer_active` with the timer, `key_status`, and where
the handler is. -/
structure GpioKeys where
  maps : PinMap → Nat → Bool
  irqEnabled : Nat → Bool
  timeDebounce : UInt32
  timeDither : UInt32
  timerActive : Bool
  timerArmed : Bool
  status : KeyStatus
  pc : HandlerPc

/-- What the handler reads from the hardware, and what the other keys add to `code_down` and
`need_timer`. -/
structure TurnInput where
  pressed : Bool
  time : UInt32
  codeDown : KeyCode
  needTimer : Bool

/-- An interrupt of a pin, the expiry of the timer, or the next access of the handler. -/
inductive GpioEvent where
  | irq (pin : Nat) (pressed : Bool) (time : UInt32)
  | expire
  | run (i : TurnInput)

variable (cfg : GpioKeyConfig)

/-- The pins of a map, from `HAL_GPIO_PIN_P0_0` on. -/
def gpioPins : List Nat := List.range cfg.pinNum

/-- The maps that the handler tests for a pin in two of them. -/
def checkTodo : List (PinMap × PinMap × Nat) :=
  [(PinMap.debounce, PinMap.dither), (.debounce, .down), (.down, .dither)].flatMap fun m =>
    (gpioPins cfg).map fun p => (m.1, m.2, p)

/-- The maps that the handler tests for a pin at its end. -/
def needTodo : List (PinMap × Nat) :=
  [PinMap.dither, .down, .debounce].flatMap fun m => (gpioPins cfg).map fun p => (m, p)

/-- Where the handler goes when a map is empty, or when it is done with the map. -/
def afterMap (x : HandlerLocals) : PinMap → HandlerPc
  | .dither => .test x .down (gpioPins cfg)
  | .down => .test x .debounce (gpioPins cfg)
  | .debounce => .need x (needTodo cfg)

namespace GpioKeys

variable (s : GpioKeys)

/-- Sets a pin of a map. -/
def setPin (m : PinMap) (p : Nat) : GpioKeys :=
  { s with maps := fun m' p' => s.maps m' p' || decide (m' = m ∧ p' = p) }

/-- Clears pins of a map. -/
def clearPins (m : PinMap) (l : List Nat) : GpioKeys :=
  { s with maps := fun m' p' => s.maps m' p' && !(decide (m' = m) && l.contains p') }

/-- Sets pins of a map. -/
def setPins (m : PinMap) (l : List Nat) : GpioKeys :=
  { s with maps := fun m' p' => s.maps m' p' || (decide (m' = m) && l.contains p') }

/-- Enables or disables the interrupt of a pin. -/
def setIrq (p : Nat) (b : Bool) : GpioKeys :=
  { s with irqEnabled := fun p' => if p' = p then b else s.irqEnabled p' }

/-- `hal_key_debounce_timer_restart`, without a step of the handler in between. -/
def timerRestart : GpioKeys :=
  if s.timerActive then s else { s with timerActive := true, timerArmed := true }

/-- `hal_gpiokey_irqhandler`. -/
def irqHandler (pin : Nat) (pressed : Bool) (time : UInt32) : GpioKeys :=
  let off := s.setIrq pin false
  let recorded :=
    if pressed then { off.setPin .debounce pin with timeDebounce := time }
    else { off.setPin .dither pin with timeDither := time }
  recorded.timerRestart

/-- The next access of `hal_key_debounce_handler`. -/
def turn (i : TurnInput) : Option GpioKeys :=
  match s.pc with
  | .off | .asserted => none
  | .entry => some { s with timerActive := false, pc := .begin }
  | .begin =>
    some { s with pc := .check ⟨i.time, i.codeDown, i.needTimer⟩ (checkTodo cfg) false }
  | .check x [] _ => some { s with pc := .test x .dither (gpioPins cfg) }
  | .check x ((m, m', p) :: todo) first =>
    if first then some { s with pc := if s.maps m' p then .asserted else .check x todo false }
    else
      some { s with
        pc := if s.maps m p then .check x ((m, m', p) :: todo) true else .check x todo false }
  | .test x m [] => some { s with pc := afterMap cfg x m }
  | .test x m (p :: todo) =>
    some { s with
      pc :=
        if s.maps m p then
          if m = .dither then .ditherTime x else .copy x m (gpioPins cfg) []
        else .test x m todo }
  | .ditherTime x =>
    some { s with
      pc :=
        if cfg.ditherInterval ≤ x.time - s.timeDither then .copy x .dither (gpioPins cfg) []
        else afterMap cfg x .dither }
  | .copy x m (p :: todo) got =>
    some { s with pc := .copy x m todo (if s.maps m p then got ++ [p] else got) }
  | .copy x .dither [] got => some { s with pc := .ditherClear x got }
  | .copy x .down [] got => some { s with pc := .downRead x got }
  | .copy x .debounce [] got => some { s with pc := .debounceRead x got [] [] }
  | .ditherClear x pinMap => some { s.clearPins .dither pinMap with pc := .ditherEnable x pinMap }
  | .ditherEnable x (p :: pinMap) => some { s.setIrq p true with pc := .ditherEnable x pinMap }
  | .ditherEnable x [] => some { s with pc := afterMap cfg x .dither }
  | .downRead x (p :: pinMap) =>
    some { s with
      pc :=
        if i.pressed then .downRead { x with codeDown := x.codeDown ||| cfg.keyCode p } pinMap
        else .downClear x p pinMap }
  | .downRead x [] => some { s with pc := afterMap cfg x .down }
  | .downClear x p pinMap => some { s.clearPins .down [p] with pc := .downEnable x p pinMap }
  | .downEnable x p pinMap => some { s.setIrq p true with pc := .downRead x pinMap }
  | .debounceRead x (p :: pinMap) downAdded ditherAdded =>
    some { s with
      pc :=
        if i.pressed then .debounceTime x p pinMap downAdded ditherAdded
        else .debounceRead x pinMap downAdded (ditherAdded ++ [p]) }
  | .debounceRead x [] downAdded ditherAdded =>
    some { s with pc := .debounceMove x downAdded ditherAdded }
  | .debounceTime x p pinMap downAdded ditherAdded =>
    some { s with
      pc :=
        if cfg.debounceInterval ≤ x.time - s.timeDebounce then
          .debounceDown { x with codeDown := x.codeDown ||| cfg.keyCode p } p pinMap downAdded
            ditherAdded
        else .debounceRead x pinMap downAdded ditherAdded }
  | .debounceDown x p pinMap downAdded ditherAdded =>
    some { s.setPin .down p with
      pc := .debounceRead x pinMap (downAdded ++ [p]) ditherAdded }
  | .debounceMove x downAdded ditherAdded =>
    some { ((s.clearPins .debounce downAdded).clearPins .debounce ditherAdded).setPins .dither
        ditherAdded with pc := afterMap cfg x .debounce }
  | .need x [] => some { s with pc := .keys x }
  | .need x ((m, p) :: todo) =>
    some { s with pc := if s.maps m p then .keys { x with needTimer := true } else .need x todo }
  | .keys x =>
    let status := (s.status.debounceHandler cfg.key x.codeDown x.time).1
    some { s with
      status := status
      pc := .restart { x with needTimer := x.needTimer || decide (status.event ≠ .none) } }
  | .restart x =>
    if x.needTimer then
      if s.timerActive then some { s with pc := .off }
      else some { s with timerActive := true, pc := .stop }
    else some { s with pc := .off }
  | .stop => some { s with timerArmed := false, pc := .start }
  | .start => some { s with timerArmed := true, pc := .off }

/-- All configured interrupts are enabled, and nothing else has happened. -/
def init : GpioKeys :=
  ⟨fun _ _ => false, cfg.configured, 0, 0, false, false, .zero, .off⟩

end GpioKeys

/-- One step. -/
def gpioStep (s : GpioKeys) : GpioEvent → Option GpioKeys
  | .irq pin pressed time => if s.irqEnabled pin then some (s.irqHandler pin pressed time) else none
  | .expire =>
    match s.pc with
    | .off => if s.timerArmed then some { s with timerArmed := false, pc := .entry } else none
    | _ => none
  | .run i => s.turn cfg i

/-! ### What the handler has in its hands -/

namespace HandlerPc

/-- Pins that are in no map, and that the handler is going to enable. -/
def owned : HandlerPc → List Nat
  | .ditherEnable _ pinMap => pinMap
  | .downEnable _ p _ => [p]
  | _ => []

/-- Pins on their way from `pin_debounce` to `pin_down`, which are in both. -/
def moving : HandlerPc → List Nat
  | .debounceRead _ _ downAdded _ | .debounceTime _ _ _ downAdded _
  | .debounceDown _ _ _ downAdded _ | .debounceMove _ downAdded _ => downAdded
  | _ => []

/-- Pins of a map that the handler has still to look at or to move. -/
def hand : HandlerPc → PinMap → List Nat
  | .copy _ m _ got, m' => if m' = m then got else []
  | .ditherClear _ pinMap, .dither => pinMap
  | .downRead _ pinMap, .down | .downEnable _ _ pinMap, .down => pinMap
  | .downClear _ p pinMap, .down => p :: pinMap
  | .debounceRead _ pinMap _ ditherAdded, .debounce => pinMap ++ ditherAdded
  | .debounceTime _ p pinMap _ ditherAdded, .debounce
  | .debounceDown _ p pinMap _ ditherAdded, .debounce => p :: (pinMap ++ ditherAdded)
  | .debounceMove _ _ ditherAdded, .debounce => ditherAdded
  | _, _ => []

/-- All pins that the position carries. -/
def pins : HandlerPc → List Nat
  | .copy _ _ todo got => got ++ todo
  | .ditherClear _ pinMap | .ditherEnable _ pinMap | .downRead _ pinMap => pinMap
  | .downClear _ p pinMap | .downEnable _ p pinMap => p :: pinMap
  | .debounceRead _ pinMap downAdded ditherAdded => pinMap ++ (downAdded ++ ditherAdded)
  | .debounceTime _ p pinMap downAdded ditherAdded
  | .debounceDown _ p pinMap downAdded ditherAdded => p :: (pinMap ++ (downAdded ++ ditherAdded))
  | .debounceMove _ downAdded ditherAdded => downAdded ++ ditherAdded
  | _ => []

/-- The position has no pins in its hands. -/
def Free (pc : HandlerPc) : Prop :=
  pc.owned = [] ∧ pc.moving = [] ∧ (∀ m, pc.hand m = []) ∧ pc.pins = []

/-- The handler works on the maps. -/
def OnMaps : HandlerPc → Prop
  | .off | .entry | .begin | .check .. | .asserted | .need .. | .keys _ | .restart _ | .stop
  | .start => False
  | _ => True

end HandlerPc

/-! ### The maps -/

/-- No pin is in two maps, but for those on their way; a pin whose interrupt is enabled is in none,
and one whose interrupt is disabled is in one or in the hands of the handler. -/
structure PinInv (maps : PinMap → Nat → Bool) (irqEnabled : Nat → Bool) (owned moving : List Nat)
    (hand : PinMap → List Nat) : Prop where
  exclusive : ∀ m m' p, maps m p = true → maps m' p = true →
    m = m' ∨ p ∈ moving ∧ m ≠ .dither ∧ m' ≠ .dither
  enabled : ∀ p, irqEnabled p = true →
    cfg.configured p = true ∧ (∀ m, maps m p = false) ∧ p ∉ owned
  disabled : ∀ p, cfg.configured p = true → irqEnabled p = false →
    (∃ m, maps m p = true) ∨ p ∈ owned
  owned : ∀ p ∈ owned, cfg.configured p = true ∧ ∀ m, maps m p = false
  mapped : ∀ m p, maps m p = true → cfg.configured p = true
  hand : ∀ m, ∀ p ∈ hand m, maps m p = true
  moving : ∀ p ∈ moving, maps .debounce p = true ∧ maps .down p = true

namespace PinInv

variable {cfg} {maps : PinMap → Nat → Bool} {irqEnabled : Nat → Bool} {owned moving : List Nat}
  {hand hand' : PinMap → List Nat}

/-- The handler forgets pins that it has looked at. -/
theorem mono (h : PinInv cfg maps irqEnabled owned moving hand)
    (hsub : ∀ m, ∀ p ∈ hand' m, p ∈ hand m) : PinInv cfg maps irqEnabled owned moving hand' :=
  ⟨h.exclusive, h.enabled, h.disabled, h.owned, h.mapped, fun m p hp => h.hand m p (hsub m p hp),
    h.moving⟩

/-- An interrupt records a pin that is in no map. -/
theorem irq (h : PinInv cfg maps irqEnabled owned moving hand) {pin : Nat}
    (hpin : irqEnabled pin = true) (m₀ : PinMap) :
    PinInv cfg (fun m p => maps m p || decide (m = m₀ ∧ p = pin))
      (fun p => if p = pin then false else irqEnabled p) owned moving hand := by
  obtain ⟨hconf, hfree, hown⟩ := h.enabled pin hpin
  refine ⟨fun m m' p hm hm' => ?_, fun p hp => ?_, fun p hp hirq => ?_, fun p hp => ?_,
    fun m p hm => ?_, fun m p hp => by simp [h.hand m p hp],
    fun p hp => by simp [h.moving p hp]⟩
  · by_cases hpp : p = pin
    · subst hpp
      simp only [hfree, Bool.false_or, decide_eq_true_eq, and_true] at hm hm'
      exact .inl (hm.trans hm'.symm)
    · simp only [hpp, and_false, decide_false, Bool.or_false] at hm hm'
      exact h.exclusive m m' p hm hm'
  · by_cases hpp : p = pin
    · simp [hpp] at hp
    · rw [if_neg hpp] at hp
      obtain ⟨hc, hf, ho⟩ := h.enabled p hp
      exact ⟨hc, fun m => by simp [hf, hpp], ho⟩
  · by_cases hpp : p = pin
    · exact .inl ⟨m₀, by simp [hpp]⟩
    · rw [if_neg hpp] at hirq
      exact (h.disabled p hp hirq).imp_left fun ⟨m, hm⟩ => ⟨m, by simp [hm]⟩
  · obtain ⟨hc, hf⟩ := h.owned p hp
    have hpp : p ≠ pin := fun heq => hown (heq ▸ hp)
    exact ⟨hc, fun m => by simp [hf, hpp]⟩
  · by_cases hpp : p = pin
    · exact hpp ▸ hconf
    · simp only [hpp, and_false, decide_false, Bool.or_false] at hm
      exact h.mapped m p hm

/-- The handler takes pins out of a map, to enable them. -/
theorem clear (h : PinInv cfg maps irqEnabled [] [] hand) {m₀ : PinMap} {l : List Nat}
    (hl : ∀ p ∈ l, p ∈ hand m₀) (hsub : ∀ m, ∀ p ∈ hand' m, p ∈ hand m ∧ p ∉ l) :
    PinInv cfg (fun m p => maps m p && !(decide (m = m₀) && l.contains p)) irqEnabled l []
      hand' := by
  have hmem {m : PinMap} {p : Nat} :
      (maps m p && !(decide (m = m₀) && l.contains p)) = true ↔
        maps m p = true ∧ ¬(m = m₀ ∧ p ∈ l) := by
    by_cases hm : m = m₀ <;> simp [hm]
  refine ⟨fun m m' p hm hm' => ?_, fun p hp => ?_, fun p hp hirq => ?_, fun p hp => ?_,
    fun m p hm => h.mapped m p (hmem.1 hm).1, fun m p hp => ?_, by simp⟩
  · exact h.exclusive m m' p (hmem.1 hm).1 (hmem.1 hm').1
  · obtain ⟨hc, hf, -⟩ := h.enabled p hp
    refine ⟨hc, fun m => by simp [hf], fun hpl => ?_⟩
    have hin := h.hand m₀ p (hl p hpl)
    rw [hf] at hin
    cases hin
  · obtain ⟨m, hm⟩ := (h.disabled p hp hirq).resolve_right (by simp)
    by_cases hout : m = m₀ ∧ p ∈ l
    · exact .inr hout.2
    · exact .inl ⟨m, hmem.2 ⟨hm, hout⟩⟩
  · have hin := h.hand m₀ p (hl p hp)
    refine ⟨h.mapped m₀ p hin, fun m => Bool.eq_false_iff.2 fun hm => ?_⟩
    obtain ⟨hm, hout⟩ := hmem.1 hm
    exact hout ⟨(h.exclusive m m₀ p hm hin).resolve_right (by simp), hp⟩
  · obtain ⟨hin, hpl⟩ := hsub m p hp
    exact hmem.2 ⟨h.hand m p hin, fun hout => hpl hout.2⟩

/-- The handler enables a pin. -/
theorem enable {p₀ : Nat} (h : PinInv cfg maps irqEnabled (p₀ :: owned) moving hand)
    (hnot : p₀ ∉ owned) :
    PinInv cfg maps (fun p => if p = p₀ then true else irqEnabled p) owned moving hand := by
  obtain ⟨hconf, hfree⟩ := h.owned p₀ List.mem_cons_self
  refine ⟨h.exclusive, fun p hp => ?_, fun p hp hirq => ?_,
    fun p hp => h.owned p (List.mem_cons_of_mem p₀ hp), h.mapped, h.hand, h.moving⟩
  · by_cases hpp : p = p₀
    · exact hpp ▸ ⟨hconf, hfree, hnot⟩
    · rw [if_neg hpp] at hp
      obtain ⟨hc, hf, ho⟩ := h.enabled p hp
      exact ⟨hc, hf, fun hmem => ho (List.mem_cons_of_mem p₀ hmem)⟩
  · by_cases hpp : p = p₀
    · simp [hpp] at hirq
    · rw [if_neg hpp] at hirq
      exact (h.disabled p hp hirq).imp_right fun hmem =>
        (List.mem_cons.1 hmem).resolve_left hpp

/-- A pin that is down long enough goes to `pin_down`. -/
theorem setDown (h : PinInv cfg maps irqEnabled [] moving hand) {p₀ : Nat}
    (hp₀ : p₀ ∈ hand .debounce) (hsub : ∀ m, ∀ p ∈ hand' m, p ∈ hand m) :
    PinInv cfg (fun m p => maps m p || decide (m = .down ∧ p = p₀)) irqEnabled []
      (moving ++ [p₀]) hand' := by
  have hin := h.hand _ p₀ hp₀
  have hmem {m : PinMap} {p : Nat} : (maps m p || decide (m = .down ∧ p = p₀)) = true ↔
      maps m p = true ∨ (m = .down ∧ p = p₀) := by simp
  -- a pin of `pin_debounce` is not in `pin_dither`
  have hdither : maps .dither p₀ = false := Bool.eq_false_iff.2 fun hm => by
    rcases h.exclusive _ _ p₀ hm hin with heq | ⟨-, hne, -⟩
    · cases heq
    · exact hne rfl
  refine ⟨fun m m' p hm hm' => ?_, fun p hp => ?_, fun p hp hirq => ?_, by simp, fun m p hm => ?_,
    fun m p hp => hmem.2 (.inl (h.hand m p (hsub m p hp))), fun p hp => ?_⟩
  · by_cases hpp : p = p₀
    · subst hpp
      have hne {m : PinMap} (hm : (maps m p || decide (m = .down ∧ p = p)) = true) :
          m ≠ .dither := by
        rintro rfl
        simp [hdither] at hm
      exact .inr ⟨by simp, hne hm, hne hm'⟩
    · simp only [hpp, and_false, decide_false, Bool.or_false] at hm hm'
      exact (h.exclusive m m' p hm hm').imp_right (And.imp_left (List.mem_append_left _))
  · obtain ⟨hc, hf, ho⟩ := h.enabled p hp
    have hpp : p ≠ p₀ := by
      rintro rfl
      rw [hf] at hin
      cases hin
    exact ⟨hc, fun m => by simp [hf, hpp], ho⟩
  · exact (h.disabled p hp hirq).imp_left fun ⟨m, hm⟩ => ⟨m, hmem.2 (.inl hm)⟩
  · rcases hmem.1 hm with hm | ⟨-, rfl⟩
    · exact h.mapped m p hm
    · exact h.mapped _ p hin
  · rcases List.mem_append.1 hp with hp | hp
    · exact ⟨hmem.2 (.inl (h.moving p hp).1), hmem.2 (.inl (h.moving p hp).2)⟩
    · obtain rfl := List.mem_singleton.1 hp
      exact ⟨hmem.2 (.inl hin), hmem.2 (.inr ⟨rfl, rfl⟩)⟩

/-- The pins that are down leave `pin_debounce`, and the others go to `pin_dither`. -/
theorem move {down dither : List Nat}
    (h : PinInv cfg maps irqEnabled [] down fun m => if m = .debounce then dither else [])
    (hdisj : ∀ p ∈ dither, p ∉ down) :
    PinInv cfg (fun m p =>
        (maps m p && !(decide (m = .debounce) && down.contains p) &&
          !(decide (m = .debounce) && dither.contains p)) ||
        (decide (m = .dither) && dither.contains p)) irqEnabled [] [] fun _ => [] := by
  have hin : ∀ p ∈ dither, maps .debounce p = true := fun p hp => h.hand .debounce p (by simpa)
  have hmem {m : PinMap} {p : Nat} : ((maps m p && !(decide (m = .debounce) && down.contains p) &&
      !(decide (m = .debounce) && dither.contains p)) ||
        (decide (m = .dither) && dither.contains p)) = true ↔
      (maps m p = true ∧ (m = .debounce → p ∉ down ∧ p ∉ dither)) ∨
        (m = .dither ∧ p ∈ dither) := by
    cases m <;> simp [and_assoc]
  -- a pin of two maps is on its way, and it leaves one of them
  have hkept {m m' : PinMap} {p : Nat} (hm : maps m p = true) (hm' : maps m' p = true)
      (hout : m = .debounce → p ∉ down ∧ p ∉ dither)
      (hout' : m' = .debounce → p ∉ down ∧ p ∉ dither) : m = m' := by
    rcases h.exclusive m m' p hm hm' with heq | ⟨hp, hne, hne'⟩
    · exact heq
    · cases m <;> cases m' <;> simp_all
  have hnew {m : PinMap} {p : Nat} (hm : maps m p = true)
      (hout : m = .debounce → p ∉ down ∧ p ∉ dither) (hp : p ∈ dither) : False := by
    rcases h.exclusive m .debounce p hm (hin p hp) with rfl | ⟨hdown, -, -⟩
    · exact (hout rfl).2 hp
    · exact hdisj p hp hdown
  refine ⟨fun m m' p hm hm' => .inl ?_, fun p hp => ?_, fun p hp hirq => .inl ?_, by simp,
    fun m p hm => ?_, by simp, by simp⟩
  · rcases hmem.1 hm with hm | ⟨rfl, hp⟩ <;> rcases hmem.1 hm' with hm' | ⟨rfl, hp'⟩
    · exact hkept hm.1 hm'.1 hm.2 hm'.2
    · exact (hnew hm.1 hm.2 hp').elim
    · exact (hnew hm'.1 hm'.2 hp).elim
    · rfl
  · obtain ⟨hc, hf, ho⟩ := h.enabled p hp
    refine ⟨hc, fun m => Bool.eq_false_iff.2 fun hm => ?_, by simp⟩
    rcases hmem.1 hm with hm | ⟨-, hpd⟩
    · simp [hf] at hm
    · simpa [hf] using hin p hpd
  · obtain ⟨m, hm⟩ := (h.disabled p hp hirq).resolve_right (by simp)
    by_cases hd : p ∈ dither
    · exact ⟨.dither, hmem.2 (.inr ⟨rfl, hd⟩)⟩
    · by_cases hp : p ∈ down
      · exact ⟨.down, hmem.2 (.inl ⟨(h.moving p hp).2, by simp⟩)⟩
      · exact ⟨m, hmem.2 (.inl ⟨hm, fun _ => ⟨hp, hd⟩⟩)⟩
  · rcases hmem.1 hm with hm | ⟨-, hp⟩
    · exact h.mapped m p hm.1
    · exact h.mapped _ p (hin p hp)

end PinInv

/-! ### One step -/

/-- The invariant of the maps, at a position of the handler. -/
structure GpioKeys.MapInv (s : GpioKeys) : Prop where
  pins : PinInv cfg s.maps s.irqEnabled s.pc.owned s.pc.moving s.pc.hand
  nodup : s.pc.pins.Nodup

namespace GpioKeys.MapInv

variable {cfg} {s t : GpioKeys}

/-- A step that leaves the maps as they are, and takes nothing into its hands. -/
theorem goto (h : s.MapInv cfg) (hmaps : t.maps = s.maps) (hirq : t.irqEnabled = s.irqEnabled)
    (howned : t.pc.owned = s.pc.owned) (hmoving : t.pc.moving = s.pc.moving)
    (hhand : ∀ m, ∀ p ∈ t.pc.hand m, p ∈ s.pc.hand m) (hpins : t.pc.pins.Nodup) :
    t.MapInv cfg := by
  refine ⟨?_, hpins⟩
  rw [hmaps, hirq, howned, hmoving]
  exact h.pins.mono hhand

/-- An interrupt keeps the invariant, wherever the handler is. -/
theorem irq (h : s.MapInv cfg) {pin : Nat} (hpin : s.irqEnabled pin = true) (pressed : Bool)
    (time : UInt32) : (s.irqHandler pin pressed time).MapInv cfg := by
  have hnext := h.pins.irq hpin (if pressed then .debounce else .dither)
  refine ⟨?_, ?_⟩
  · cases pressed <;> cases hactive : s.timerActive <;>
      simpa [GpioKeys.irqHandler, GpioKeys.timerRestart, GpioKeys.setPin, GpioKeys.setIrq,
        hactive] using hnext
  · cases pressed <;> cases hactive : s.timerActive <;>
      simpa [GpioKeys.irqHandler, GpioKeys.timerRestart, GpioKeys.setPin, GpioKeys.setIrq,
        hactive] using h.nodup

/-- A step that leaves the maps as they are and has nothing in its hands. -/
theorem free (h : s.MapInv cfg) (hmaps : t.maps = s.maps) (hirq : t.irqEnabled = s.irqEnabled)
    (howned : s.pc.owned = []) (hmoving : s.pc.moving = []) (hfree : t.pc.Free) :
    t.MapInv cfg := by
  obtain ⟨ho, hm, hh, hp⟩ := hfree
  refine h.goto hmaps hirq (ho.trans howned.symm) (hm.trans hmoving.symm) (fun m p hmem => ?_) ?_
  · rw [hh] at hmem
    cases hmem
  · rw [hp]
    exact List.nodup_nil

/-- The position with which a map begins. -/
theorem afterMap_free (x : HandlerLocals) (m : PinMap) : (afterMap cfg x m).Free := by
  cases m <;> exact ⟨rfl, rfl, fun _ => rfl, rfl⟩

/-- The handler starts to copy a map. -/
theorem startCopy (h : s.MapInv cfg) (howned : s.pc.owned = []) (hmoving : s.pc.moving = [])
    (x : HandlerLocals) (m : PinMap) :
    GpioKeys.MapInv cfg { s with pc := .copy x m (gpioPins cfg) [] } := by
  refine h.goto rfl rfl howned.symm hmoving.symm (fun m' p hmem => ?_) List.nodup_range
  simp [HandlerPc.hand] at hmem

/-- Testing the maps for pins in two of them takes nothing into the hands of the handler. -/
theorem check (h : s.MapInv cfg) {i : TurnInput} (ht : s.turn cfg i = some t)
    {x : HandlerLocals} {todo : List (PinMap × PinMap × Nat)} {first : Bool}
    (hpc : s.pc = .check x todo first) : t.MapInv cfg := by
  have hfree : t.maps = s.maps ∧ t.irqEnabled = s.irqEnabled ∧ t.pc.Free := by
    cases todo with
    | nil =>
      simp only [GpioKeys.turn, hpc] at ht
      obtain rfl := Option.some.inj ht
      exact ⟨rfl, rfl, rfl, rfl, fun _ => rfl, rfl⟩
    | cons m todo =>
      simp only [GpioKeys.turn, hpc] at ht
      split at ht <;> obtain rfl := Option.some.inj ht
      · refine ⟨rfl, rfl, ?_⟩
        dsimp only
        split <;> exact ⟨rfl, rfl, fun _ => rfl, rfl⟩
      · refine ⟨rfl, rfl, ?_⟩
        dsimp only
        split <;> exact ⟨rfl, rfl, fun _ => rfl, rfl⟩
  exact h.free hfree.1 hfree.2.1 (by rw [hpc]; rfl) (by rw [hpc]; rfl) hfree.2.2

/-- Testing a map for pins starts to copy it, or goes on behind it. -/
theorem test (h : s.MapInv cfg) {i : TurnInput} (ht : s.turn cfg i = some t)
    {x : HandlerLocals} {m : PinMap} {todo : List Nat}
    (hpc : s.pc = .test x m todo) : t.MapInv cfg := by
  cases todo with
  | nil =>
    simp only [GpioKeys.turn, hpc] at ht
    obtain rfl := Option.some.inj ht
    exact h.free rfl rfl (by rw [hpc]; rfl) (by rw [hpc]; rfl) (afterMap_free x m)
  | cons p todo =>
    simp only [GpioKeys.turn, hpc] at ht
    obtain rfl := Option.some.inj ht
    have howned : s.pc.owned = [] := by rw [hpc]; rfl
    have hmoving : s.pc.moving = [] := by rw [hpc]; rfl
    split
    · split
      · exact h.free rfl rfl howned hmoving ⟨rfl, rfl, fun _ => rfl, rfl⟩
      · exact h.startCopy howned hmoving x m
    · exact h.free rfl rfl howned hmoving ⟨rfl, rfl, fun _ => rfl, rfl⟩

/-- A pin that is copied is still set, because only the handler clears it. -/
theorem copy (h : s.MapInv cfg) {i : TurnInput} (ht : s.turn cfg i = some t)
    {x : HandlerLocals} {m : PinMap} {todo got : List Nat}
    (hpc : s.pc = .copy x m todo got) : t.MapInv cfg := by
  have hp := h.pins
  have hn := h.nodup
  rw [hpc] at hp hn
  cases todo with
  | nil =>
    rw [HandlerPc.pins, List.append_nil] at hn
    cases m <;> simp only [GpioKeys.turn, hpc] at ht <;> obtain rfl := Option.some.inj ht
    · refine ⟨hp.mono fun m' p hmem => ?_, by simpa [HandlerPc.pins] using hn⟩
      cases m' <;> simp [HandlerPc.hand] at hmem ⊢
      exact hmem
    · refine ⟨hp.mono fun m' p hmem => ?_, hn⟩
      cases m' <;> simp [HandlerPc.hand] at hmem ⊢
      exact hmem
    · refine ⟨hp.mono fun m' p hmem => ?_, hn⟩
      cases m' <;> simp [HandlerPc.hand] at hmem ⊢
      exact hmem
  | cons p todo =>
    simp only [GpioKeys.turn, hpc] at ht
    obtain rfl := Option.some.inj ht
    by_cases hset : s.maps m p = true
    · -- the pin is still set, because only the handler clears it
      rw [if_pos hset]
      refine ⟨⟨hp.exclusive, hp.enabled, hp.disabled, hp.owned, hp.mapped, fun m' q hq => ?_,
        hp.moving⟩, by simpa [HandlerPc.pins, List.append_assoc] using hn⟩
      by_cases hm : m' = m
      · subst hm
        have hq' : q ∈ got ∨ q = p := by simpa [HandlerPc.hand] using hq
        rcases hq' with hq' | rfl
        · exact hp.hand m' q (by simpa [HandlerPc.hand] using hq')
        · exact hset
      · simp [HandlerPc.hand, hm] at hq
    · rw [if_neg hset]
      refine ⟨hp.mono fun m' q hq => hq, hn.sublist ?_⟩
      exact List.Sublist.append_left (List.sublist_cons_self p todo) got

/-- The pins of `pin_dither` are enabled one by one. -/
theorem ditherEnable (h : s.MapInv cfg) {i : TurnInput} (ht : s.turn cfg i = some t)
    {x : HandlerLocals} {pinMap : List Nat}
    (hpc : s.pc = .ditherEnable x pinMap) : t.MapInv cfg := by
  have hp := h.pins
  have hn := h.nodup
  rw [hpc] at hp hn
  cases pinMap with
  | nil =>
    simp only [GpioKeys.turn, hpc] at ht
    obtain rfl := Option.some.inj ht
    exact h.free rfl rfl (by rw [hpc]; rfl) (by rw [hpc]; rfl) (afterMap_free x .dither)
  | cons p pinMap =>
    simp only [GpioKeys.turn, hpc] at ht
    obtain rfl := Option.some.inj ht
    obtain ⟨hnot, hrest⟩ := List.nodup_cons.1 hn
    exact ⟨(hp.enable hnot).mono fun m q hq => hq, hrest⟩

/-- A pin of `pin_down` that is still down is left alone. -/
theorem downRead (h : s.MapInv cfg) {i : TurnInput} (ht : s.turn cfg i = some t)
    {x : HandlerLocals} {pinMap : List Nat}
    (hpc : s.pc = .downRead x pinMap) : t.MapInv cfg := by
  have hp := h.pins
  have hn := h.nodup
  rw [hpc] at hp hn
  cases pinMap with
  | nil =>
    simp only [GpioKeys.turn, hpc] at ht
    obtain rfl := Option.some.inj ht
    exact h.free rfl rfl (by rw [hpc]; rfl) (by rw [hpc]; rfl) (afterMap_free x .down)
  | cons p pinMap =>
    simp only [GpioKeys.turn, hpc] at ht
    obtain rfl := Option.some.inj ht
    split
    · refine ⟨hp.mono fun m q hq => ?_, (List.nodup_cons.1 hn).2⟩
      cases m <;> first | exact List.mem_cons_of_mem p hq | exact hq
    · exact ⟨hp.mono fun m q hq => by cases m <;> exact hq, hn⟩

/-- A pin of `pin_down` that is up leaves the map before it is enabled. -/
theorem downClear (h : s.MapInv cfg) {i : TurnInput} (ht : s.turn cfg i = some t)
    {x : HandlerLocals} {p : Nat} {pinMap : List Nat}
    (hpc : s.pc = .downClear x p pinMap) : t.MapInv cfg := by
  have hp := h.pins
  have hn := h.nodup
  rw [hpc] at hp hn
  simp only [GpioKeys.turn, hpc] at ht
  obtain rfl := Option.some.inj ht
  obtain ⟨hnot, -⟩ := List.nodup_cons.1 hn
  refine ⟨hp.clear (fun q hq => ?_) (fun m q hq => ?_), hn⟩
  · rw [List.mem_singleton.1 hq]
    exact List.mem_cons_self
  · cases m with
    | down =>
      refine ⟨List.mem_cons_of_mem p hq, fun hqp => hnot ?_⟩
      rwa [List.mem_singleton.1 hqp] at hq
    | debounce | dither => cases hq

/-- A pin of `pin_debounce` that is up is going to move. -/
theorem debounceRead (h : s.MapInv cfg) {i : TurnInput} (ht : s.turn cfg i = some t)
    {x : HandlerLocals} {pinMap downAdded ditherAdded : List Nat}
    (hpc : s.pc = .debounceRead x pinMap downAdded ditherAdded) : t.MapInv cfg := by
  have hp := h.pins
  have hn := h.nodup
  rw [hpc] at hp hn
  cases pinMap with
  | nil =>
    simp only [GpioKeys.turn, hpc] at ht
    obtain rfl := Option.some.inj ht
    exact ⟨hp.mono fun m q hq => by cases m <;> exact hq, hn⟩
  | cons p pinMap =>
    simp only [GpioKeys.turn, hpc] at ht
    obtain rfl := Option.some.inj ht
    split
    · exact ⟨hp.mono fun m q hq => by cases m <;> exact hq, hn⟩
    · -- the pin goes from the ones to look at to the ones to move
      refine ⟨hp.mono fun m q hq => ?_, hn.perm ?_⟩
      · cases m with
        | debounce =>
          simp only [HandlerPc.hand, List.mem_append, List.mem_cons] at hq ⊢
          tauto
        | dither | down => exact hq
      · simp only [HandlerPc.pins, ← List.append_assoc]
        exact (List.perm_append_singleton p _).symm

/-- A pin of `pin_debounce` that is down waits, or is going to move. -/
theorem debounceTime (h : s.MapInv cfg) {i : TurnInput} (ht : s.turn cfg i = some t)
    {x : HandlerLocals} {p : Nat} {pinMap downAdded ditherAdded : List Nat}
    (hpc : s.pc = .debounceTime x p pinMap downAdded ditherAdded) : t.MapInv cfg := by
  have hp := h.pins
  have hn := h.nodup
  rw [hpc] at hp hn
  simp only [GpioKeys.turn, hpc] at ht
  obtain rfl := Option.some.inj ht
  split
  · exact ⟨hp.mono fun m q hq => by cases m <;> exact hq, hn⟩
  · refine ⟨hp.mono fun m q hq => ?_, (List.nodup_cons.1 hn).2⟩
    cases m <;> first | exact List.mem_cons_of_mem p hq | exact hq

/-- A pin that has been down long enough is set in `pin_down` first. -/
theorem debounceDown (h : s.MapInv cfg) {i : TurnInput} (ht : s.turn cfg i = some t)
    {x : HandlerLocals} {p : Nat} {pinMap downAdded ditherAdded : List Nat}
    (hpc : s.pc = .debounceDown x p pinMap downAdded ditherAdded) : t.MapInv cfg := by
  have hp := h.pins
  have hn := h.nodup
  rw [hpc] at hp hn
  simp only [GpioKeys.turn, hpc] at ht
  obtain rfl := Option.some.inj ht
  refine ⟨hp.setDown List.mem_cons_self fun m q hq => ?_, hn.perm ?_⟩
  · cases m <;> first | exact List.mem_cons_of_mem p hq | exact hq
  · simp only [HandlerPc.pins, List.append_assoc, List.singleton_append]
    refine (List.perm_middle.symm.trans ?_)
    exact List.Perm.append_left pinMap List.perm_middle.symm

/-- The pins that move leave `pin_debounce` at once. -/
theorem debounceMove (h : s.MapInv cfg) {i : TurnInput} (ht : s.turn cfg i = some t)
    {x : HandlerLocals} {downAdded ditherAdded : List Nat}
    (hpc : s.pc = .debounceMove x downAdded ditherAdded) : t.MapInv cfg := by
  have hp := h.pins
  have hn := h.nodup
  rw [hpc] at hp hn
  simp only [GpioKeys.turn, hpc] at ht
  obtain rfl := Option.some.inj ht
  have hhand : PinInv cfg s.maps s.irqEnabled [] downAdded
      (fun m => if m = .debounce then ditherAdded else []) := by
    refine hp.mono fun m q hq => ?_
    cases m with
    | debounce => exact hq
    | dither | down => cases hq
  exact ⟨hhand.move fun q hq hq' => (List.nodup_append.1 hn).2.2 q hq' q hq rfl,
    List.nodup_nil⟩

/-- Testing the maps at the end takes nothing into the hands of the handler. -/
theorem need (h : s.MapInv cfg) {i : TurnInput} (ht : s.turn cfg i = some t)
    {x : HandlerLocals} {todo : List (PinMap × Nat)}
    (hpc : s.pc = .need x todo) : t.MapInv cfg := by
  have howned : s.pc.owned = [] := by rw [hpc]; rfl
  have hmoving : s.pc.moving = [] := by rw [hpc]; rfl
  cases todo with
  | nil =>
    simp only [GpioKeys.turn, hpc] at ht
    obtain rfl := Option.some.inj ht
    exact h.free rfl rfl howned hmoving ⟨rfl, rfl, fun _ => rfl, rfl⟩
  | cons m todo =>
    simp only [GpioKeys.turn, hpc] at ht
    obtain rfl := Option.some.inj ht
    split <;> exact h.free rfl rfl howned hmoving ⟨rfl, rfl, fun _ => rfl, rfl⟩

/-- The timer is restarted with nothing in the hands of the handler. -/
theorem restart (h : s.MapInv cfg) {i : TurnInput} (ht : s.turn cfg i = some t)
    {x : HandlerLocals}
    (hpc : s.pc = .restart x) : t.MapInv cfg := by
  have howned : s.pc.owned = [] := by rw [hpc]; rfl
  have hmoving : s.pc.moving = [] := by rw [hpc]; rfl
  simp only [GpioKeys.turn, hpc] at ht
  split at ht
  · split at ht <;> obtain rfl := Option.some.inj ht <;>
      exact h.free rfl rfl howned hmoving ⟨rfl, rfl, fun _ => rfl, rfl⟩
  · obtain rfl := Option.some.inj ht
    exact h.free rfl rfl howned hmoving ⟨rfl, rfl, fun _ => rfl, rfl⟩

/-- A step of the handler keeps the invariant. -/
theorem turn (h : s.MapInv cfg) {i : TurnInput} (ht : s.turn cfg i = some t) : t.MapInv cfg := by
  have hp := h.pins
  have hn := h.nodup
  cases hpc : s.pc with
  | off | asserted => simp [GpioKeys.turn, hpc] at ht
  | entry | begin | stop | start | keys =>
    simp only [GpioKeys.turn, hpc] at ht
    obtain rfl := Option.some.inj ht
    exact h.free rfl rfl (by rw [hpc]; rfl) (by rw [hpc]; rfl) ⟨rfl, rfl, fun _ => rfl, rfl⟩
  | check x todo first => exact h.check ht hpc
  | test x m todo => exact h.test ht hpc
  | ditherTime x =>
    simp only [GpioKeys.turn, hpc] at ht
    obtain rfl := Option.some.inj ht
    have howned : s.pc.owned = [] := by rw [hpc]; rfl
    have hmoving : s.pc.moving = [] := by rw [hpc]; rfl
    split
    · exact h.startCopy howned hmoving x .dither
    · exact h.free rfl rfl howned hmoving (afterMap_free x .dither)
  | copy x m todo got => exact h.copy ht hpc
  | ditherClear x pinMap =>
    rw [hpc] at hp hn
    simp only [GpioKeys.turn, hpc] at ht
    obtain rfl := Option.some.inj ht
    exact ⟨hp.clear (fun p hmem => hmem) (fun m p hmem => by cases hmem), hn⟩
  | ditherEnable x pinMap => exact h.ditherEnable ht hpc
  | downRead x pinMap => exact h.downRead ht hpc
  | downClear x p pinMap => exact h.downClear ht hpc
  | downEnable x p pinMap =>
    rw [hpc] at hp hn
    simp only [GpioKeys.turn, hpc] at ht
    obtain rfl := Option.some.inj ht
    exact ⟨(hp.enable (by simp)).mono fun m q hq => by cases m <;> exact hq,
      (List.nodup_cons.1 hn).2⟩
  | debounceRead x pinMap downAdded ditherAdded => exact h.debounceRead ht hpc
  | debounceTime x p pinMap downAdded ditherAdded => exact h.debounceTime ht hpc
  | debounceDown x p pinMap downAdded ditherAdded => exact h.debounceDown ht hpc
  | debounceMove x downAdded ditherAdded => exact h.debounceMove ht hpc
  | need x todo => exact h.need ht hpc
  | restart x => exact h.restart ht hpc

end GpioKeys.MapInv

/-! ### Positions -/

theorem afterMap_onMaps (x : HandlerLocals) (m : PinMap) :
    (afterMap cfg x m).OnMaps ∨ ∃ y, afterMap cfg x m = .need y (needTodo cfg) := by
  cases m with
  | dither | down => exact .inl trivial
  | debounce => exact .inr ⟨x, rfl⟩

/-- The handler works on the maps until it tests whether it needs the timer. -/
theorem turn_onMaps {s t : GpioKeys} {i : TurnInput} (h : s.pc.OnMaps)
    (ht : s.turn cfg i = some t) :
    t.timerActive = s.timerActive ∧ t.timerArmed = s.timerArmed ∧ t.status = s.status ∧
      (t.pc.OnMaps ∨ ∃ x, t.pc = .need x (needTodo cfg)) := by
  cases hpc : s.pc with
  | off | entry | begin | check | asserted | need | keys | restart | stop | start =>
    rw [hpc] at h
    exact h.elim
  | test x m todo =>
    cases todo <;> simp only [GpioKeys.turn, hpc] at ht <;> obtain rfl := Option.some.inj ht
    · exact ⟨rfl, rfl, rfl, afterMap_onMaps cfg x m⟩
    · refine ⟨rfl, rfl, rfl, .inl ?_⟩
      dsimp only
      split
      · split <;> trivial
      · trivial
  | ditherTime x =>
    simp only [GpioKeys.turn, hpc] at ht
    obtain rfl := Option.some.inj ht
    refine ⟨rfl, rfl, rfl, .inl ?_⟩
    dsimp only
    split <;> trivial
  | copy x m todo got =>
    cases todo with
    | nil =>
      cases m <;> simp only [GpioKeys.turn, hpc] at ht <;> obtain rfl := Option.some.inj ht <;>
        exact ⟨rfl, rfl, rfl, .inl trivial⟩
    | cons p todo =>
      simp only [GpioKeys.turn, hpc] at ht
      obtain rfl := Option.some.inj ht
      exact ⟨rfl, rfl, rfl, .inl trivial⟩
  | ditherEnable x pinMap =>
    cases pinMap <;> simp only [GpioKeys.turn, hpc] at ht <;> obtain rfl := Option.some.inj ht <;>
      exact ⟨rfl, rfl, rfl, .inl trivial⟩
  | ditherClear | downClear | downEnable | debounceDown =>
    simp only [GpioKeys.turn, hpc] at ht
    obtain rfl := Option.some.inj ht
    exact ⟨rfl, rfl, rfl, .inl trivial⟩
  | downRead x pinMap =>
    cases pinMap <;> simp only [GpioKeys.turn, hpc] at ht <;> obtain rfl := Option.some.inj ht
    · exact ⟨rfl, rfl, rfl, .inl trivial⟩
    · refine ⟨rfl, rfl, rfl, .inl ?_⟩
      dsimp only
      split <;> trivial
  | debounceRead x pinMap =>
    cases pinMap <;> simp only [GpioKeys.turn, hpc] at ht <;> obtain rfl := Option.some.inj ht
    · exact ⟨rfl, rfl, rfl, .inl trivial⟩
    · refine ⟨rfl, rfl, rfl, .inl ?_⟩
      dsimp only
      split <;> trivial
  | debounceTime =>
    simp only [GpioKeys.turn, hpc] at ht
    obtain rfl := Option.some.inj ht
    refine ⟨rfl, rfl, rfl, .inl ?_⟩
    dsimp only
    split <;> trivial
  | debounceMove x =>
    simp only [GpioKeys.turn, hpc] at ht
    obtain rfl := Option.some.inj ht
    exact ⟨rfl, rfl, rfl, .inr ⟨x, rfl⟩⟩

/-! ### The assertion -/

/-- The tests of the handler are about different maps, and a first map that has been read still has
the pin. -/
def Checked (s : GpioKeys) : Prop :=
  match s.pc with
  | .check _ todo first =>
    (∀ e ∈ todo, e.1 ≠ e.2.1) ∧ (first = true → ∀ e ∈ todo.head?, s.maps e.1 e.2.2 = true)
  | .asserted => False
  | _ => True

theorem checkTodo_ne : ∀ e ∈ checkTodo cfg, e.1 ≠ e.2.1 := by
  intro e he
  simp only [checkTodo, List.mem_flatMap, List.mem_map, List.mem_cons, List.not_mem_nil,
    or_false] at he
  obtain ⟨m, rfl | rfl | rfl, p, -, rfl⟩ := he <;> simp

variable {cfg}

theorem checked_of_onMaps {s : GpioKeys}
    (h : s.pc.OnMaps ∨ ∃ x, s.pc = .need x (needTodo cfg)) : Checked s := by
  unfold Checked
  split
  · next heq =>
    rw [heq] at h
    rcases h with h | ⟨x, h⟩
    · exact h.elim
    · cases h
  · next heq =>
    rw [heq] at h
    rcases h with h | ⟨x, h⟩
    · exact h.elim
    · cases h
  · trivial

/-- The handler finds no pin in two maps. -/
theorem Checked.turn {s t : GpioKeys} {i : TurnInput} (h : Checked s) (hmap : s.MapInv cfg)
    (ht : s.turn cfg i = some t) : Checked t := by
  cases hpc : s.pc with
  | check x todo first =>
    have hpins := hmap.pins
    rw [hpc] at hpins
    simp only [Checked, hpc] at h
    obtain ⟨hne, hfirst⟩ := h
    cases todo with
    | nil =>
      simp only [GpioKeys.turn, hpc] at ht
      obtain rfl := Option.some.inj ht
      trivial
    | cons e todo =>
      have hne' : ∀ e' ∈ todo, e'.1 ≠ e'.2.1 := fun e' he' => hne e' (List.mem_cons_of_mem e he')
      simp only [GpioKeys.turn, hpc] at ht
      split at ht
      · next hread =>
        obtain rfl := Option.some.inj ht
        have hset := hfirst hread e rfl
        have hother : ¬s.maps e.2.1 e.2.2 = true := fun hboth =>
          hne e List.mem_cons_self ((hpins.exclusive _ _ _ hset hboth).resolve_right (by
            simp [HandlerPc.moving]))
        simp only [Checked, if_neg hother]
        exact ⟨hne', by simp⟩
      · obtain rfl := Option.some.inj ht
        simp only [Checked]
        split
        · next heq =>
          split at heq
          · next hset =>
            cases heq
            exact ⟨hne, fun _ e' he' => by
              obtain rfl : e = e' := by simpa using he'
              exact hset⟩
          · cases heq
            exact ⟨hne', by simp⟩
        · next heq => split at heq <;> cases heq
        · trivial
  | begin =>
    simp only [GpioKeys.turn, hpc] at ht
    obtain rfl := Option.some.inj ht
    exact ⟨checkTodo_ne cfg, by simp⟩
  | asserted => simp [Checked, hpc] at h
  | off => simp [GpioKeys.turn, hpc] at ht
  | entry | keys | stop | start =>
    simp only [GpioKeys.turn, hpc] at ht
    obtain rfl := Option.some.inj ht
    trivial
  | need x todo =>
    cases todo <;> simp only [GpioKeys.turn, hpc] at ht <;> obtain rfl := Option.some.inj ht
    · trivial
    · simp only [Checked]
      split
      · next heq => split at heq <;> cases heq
      · next heq => split at heq <;> cases heq
      · trivial
  | restart x =>
    simp only [GpioKeys.turn, hpc] at ht
    split at ht
    · split at ht <;> obtain rfl := Option.some.inj ht <;> trivial
    · obtain rfl := Option.some.inj ht
      trivial
  | _ =>
    obtain ⟨-, -, -, hpos⟩ := turn_onMaps cfg (by rw [hpc]; trivial) ht
    exact checked_of_onMaps hpos

/-! ### The timer -/

/-- `timer_active` says whether the timer is armed, but while the handler starts and while it arms
the timer; what the handler has tested and found empty is armed by the interrupt that set it. -/
def TimerInv (s : GpioKeys) : Prop :=
  match s.pc with
  | .off => s.timerActive = s.timerArmed ∧
      ((∃ m p, s.maps m p = true) ∨ s.status.event ≠ .none → s.timerArmed = true)
  | .entry => s.timerActive = true ∧ s.timerArmed = false
  | .stop | .start => s.timerActive = true
  | .need x todo => s.timerActive = s.timerArmed ∧
      ∀ m p, s.maps m p = true → x.needTimer = true ∨ s.timerArmed = true ∨ (m, p) ∈ todo
  | .keys x => s.timerActive = s.timerArmed ∧
      ∀ m p, s.maps m p = true → x.needTimer = true ∨ s.timerArmed = true
  | .restart x => s.timerActive = s.timerArmed ∧
      (∀ m p, s.maps m p = true → x.needTimer = true ∨ s.timerArmed = true) ∧
      (s.status.event ≠ .none → x.needTimer = true)
  | _ => s.timerActive = s.timerArmed

/-- An interrupt leaves the handler where it is, and `timer_active` is set. -/
theorem irqHandler_timer (s : GpioKeys) (pin : Nat) (pressed : Bool) (time : UInt32) :
    (s.irqHandler pin pressed time).pc = s.pc ∧
      (s.irqHandler pin pressed time).status = s.status ∧
      (s.irqHandler pin pressed time).timerActive = true ∧
      (s.irqHandler pin pressed time).timerArmed = (s.timerArmed || !s.timerActive) := by
  cases pressed <;> cases hactive : s.timerActive <;>
    simp [GpioKeys.irqHandler, GpioKeys.timerRestart, GpioKeys.setPin, GpioKeys.setIrq, hactive]

/-- An interrupt arms the timer, or the handler is about to. -/
theorem TimerInv.irq {s : GpioKeys} (h : TimerInv s) (pin : Nat) (pressed : Bool) (time : UInt32) :
    TimerInv (s.irqHandler pin pressed time) := by
  obtain ⟨hpc, hstatus, hactive, harmed⟩ := irqHandler_timer s pin pressed time
  unfold TimerInv at h ⊢
  rw [hpc]
  cases hcase : s.pc <;> simp only [hcase] at h ⊢ <;> grind

theorem mem_needTodo (m : PinMap) {p : Nat} (hp : p < cfg.pinNum) : (m, p) ∈ needTodo cfg := by
  cases m <;> simp [needTodo, gpioPins, hp]

/-- The handler arms the timer before it ends, if it needs it. -/
theorem TimerInv.turn {s t : GpioKeys} {i : TurnInput} (h : TimerInv s) (hmap : t.MapInv cfg)
    (ht : s.turn cfg i = some t) : TimerInv t := by
  -- all pins that are in a map are tested at the end
  have hall {x : HandlerLocals} (hpc : t.pc = .need x (needTodo cfg))
      (htimer : t.timerActive = t.timerArmed) : TimerInv t := by
    simp only [TimerInv, hpc]
    exact ⟨htimer, fun m p hm => .inr (.inr (mem_needTodo m
      (cfg.lt_pinNum p (hmap.pins.mapped m p hm))))⟩
  have hplain (hpc : t.pc.OnMaps) (htimer : t.timerActive = t.timerArmed) : TimerInv t := by
    unfold TimerInv
    cases hcase : t.pc <;> rw [hcase] at hpc <;> first | exact htimer | exact hpc.elim
  cases hpc : s.pc with
  | off | asserted => simp [GpioKeys.turn, hpc] at ht
  | entry =>
    simp only [GpioKeys.turn, hpc] at ht
    obtain rfl := Option.some.inj ht
    simp only [TimerInv, hpc] at h ⊢
    exact h.2.symm
  | begin =>
    simp only [GpioKeys.turn, hpc] at ht
    obtain rfl := Option.some.inj ht
    simpa only [TimerInv, hpc] using h
  | check x todo first =>
    simp only [TimerInv, hpc] at h
    cases todo <;> simp only [GpioKeys.turn, hpc] at ht
    · obtain rfl := Option.some.inj ht
      exact h
    · split at ht <;> obtain rfl := Option.some.inj ht <;> simp only [TimerInv] <;>
        split <;> first | exact h | (next heq => split at heq <;> cases heq)
  | need x todo =>
    simp only [TimerInv, hpc] at h
    cases todo with
    | nil =>
      simp only [GpioKeys.turn, hpc] at ht
      obtain rfl := Option.some.inj ht
      exact ⟨h.1, fun m p hm => (h.2 m p hm).imp_right fun hor => hor.resolve_right (by simp)⟩
    | cons e todo =>
      simp only [GpioKeys.turn, hpc] at ht
      obtain rfl := Option.some.inj ht
      by_cases hset : s.maps e.1 e.2 = true
      · simp only [if_pos hset]
        exact ⟨h.1, fun _ _ _ => .inl rfl⟩
      · simp only [if_neg hset]
        refine ⟨h.1, fun m p hm => (h.2 m p hm).imp_right (Or.imp_right fun hmem => ?_)⟩
        refine (List.mem_cons.1 hmem).resolve_left fun heq => hset ?_
        rw [← heq]
        exact hm
  | keys x =>
    simp only [TimerInv, hpc] at h
    simp only [GpioKeys.turn, hpc] at ht
    obtain rfl := Option.some.inj ht
    refine ⟨h.1, fun m p hm => (h.2 m p hm).imp_left fun hneed => ?_, fun hevent => ?_⟩
    · rw [Bool.or_eq_true]
      exact .inl hneed
    · rw [Bool.or_eq_true]
      exact .inr (decide_eq_true hevent)
  | restart x =>
    simp only [TimerInv, hpc] at h
    obtain ⟨heq, hmaps, hevent⟩ := h
    simp only [GpioKeys.turn, hpc] at ht
    split at ht
    · split at ht <;> obtain rfl := Option.some.inj ht
      · next hactive => exact ⟨heq, fun _ => heq ▸ hactive⟩
      · rfl
    · next hneed =>
      obtain rfl := Option.some.inj ht
      refine ⟨heq, fun hor => ?_⟩
      rcases hor with ⟨m, p, hm⟩ | hev
      · exact (hmaps m p hm).resolve_left hneed
      · exact absurd (hevent hev) hneed
  | stop =>
    simp only [TimerInv, hpc] at h
    simp only [GpioKeys.turn, hpc] at ht
    obtain rfl := Option.some.inj ht
    exact h
  | start =>
    simp only [TimerInv, hpc] at h
    simp only [GpioKeys.turn, hpc] at ht
    obtain rfl := Option.some.inj ht
    exact ⟨h, fun _ => rfl⟩
  | _ =>
    obtain ⟨hactive, harmed, -, hpos⟩ := turn_onMaps cfg (by rw [hpc]; trivial) ht
    simp only [TimerInv, hpc] at h
    have htimer : t.timerActive = t.timerArmed := by rw [hactive, harmed, h]
    rcases hpos with hpos | ⟨y, hpos⟩
    · exact hplain hpos htimer
    · exact hall hpos htimer

/-! ### All steps -/

/-- Nothing gets stuck: no pin is in two maps, a pin whose interrupt is disabled is in one of them,
and the timer is armed when there is a pin in a map or a key event under way. -/
structure KeysHeld (cfg : GpioKeyConfig) (s : GpioKeys) : Prop where
  exclusive : ∀ m m' p, s.maps m p = true → s.maps m' p = true → m = m'
  recorded : ∀ p, cfg.configured p = true → s.irqEnabled p = false → ∃ m, s.maps m p = true
  armed : (∃ m p, s.maps m p = true) ∨ s.status.event ≠ .none → s.timerArmed = true

/-- What every step keeps. -/
structure KeyInv (cfg : GpioKeyConfig) (s : GpioKeys) : Prop where
  maps : s.MapInv cfg
  checked : Checked s
  timer : TimerInv s

theorem keyInv_init (cfg : GpioKeyConfig) : KeyInv cfg (.init cfg) where
  maps := by
    refine ⟨⟨by simp [GpioKeys.init], fun p hp => ⟨hp, fun _ => rfl, List.not_mem_nil⟩,
      fun p hp hirq => ?_, fun p hp => ?_, by simp [GpioKeys.init], fun m p hp => ?_,
      fun p hp => ?_⟩, List.nodup_nil⟩
    · exact absurd (hp.symm.trans hirq) (by simp)
    · exact absurd hp List.not_mem_nil
    · exact absurd hp List.not_mem_nil
    · exact absurd hp List.not_mem_nil
  checked := trivial
  timer := ⟨rfl, by simp [GpioKeys.init, KeyStatus.zero]⟩

theorem gpioStep_inv {s t : GpioKeys} {e : GpioEvent} (h : KeyInv cfg s)
    (ht : gpioStep cfg s e = some t) : KeyInv cfg t := by
  cases e with
  | irq pin pressed time =>
    obtain ⟨hpin, ht⟩ := Option.ite_none_right_eq_some.1 ht
    obtain rfl := Option.some.inj ht
    refine ⟨h.maps.irq hpin pressed time, ?_, h.timer.irq pin pressed time⟩
    -- an interrupt sets pins only
    have hkeep : ∀ m p, s.maps m p = true → (s.irqHandler pin pressed time).maps m p = true := by
      intro m p hm
      cases pressed <;> cases hactive : s.timerActive <;>
        simp [GpioKeys.irqHandler, GpioKeys.timerRestart, GpioKeys.setPin, GpioKeys.setIrq,
          hactive, hm]
    have hchecked := h.checked
    unfold Checked at hchecked ⊢
    rw [(irqHandler_timer s pin pressed time).1]
    split at hchecked
    · exact ⟨hchecked.1, fun hfirst e he => hkeep _ _ (hchecked.2 hfirst e he)⟩
    · exact hchecked
    · trivial
  | expire =>
    simp only [gpioStep] at ht
    split at ht
    · next hpc =>
      obtain ⟨harmed, ht⟩ := Option.ite_none_right_eq_some.1 ht
      obtain rfl := Option.some.inj ht
      have htimer := h.timer
      simp only [TimerInv, hpc] at htimer
      refine ⟨h.maps.free rfl rfl (by rw [hpc]; rfl) (by rw [hpc]; rfl)
        ⟨rfl, rfl, fun _ => rfl, rfl⟩, trivial, ⟨htimer.1.trans harmed, rfl⟩⟩
    · cases ht
  | run i =>
    have hmaps := h.maps.turn ht
    exact ⟨hmaps, h.checked.turn h.maps ht, h.timer.turn hmaps ht⟩

/-- **No key gets stuck**, for every interleaving of the key interrupts with the accesses of the
handler: the handler never asserts, and whenever it does not run no pin is in two maps, every
disabled interrupt is recorded and the timer is armed if it is needed. While it runs, only the pins
that it moves from `pin_debounce` to `pin_down` are in two maps, and only interrupts that it is
going to enable are in none. -/
theorem keys_not_stuck (cfg : GpioKeyConfig) {es : List GpioEvent} {s : GpioKeys}
    (h : es.foldlM (gpioStep cfg) (.init cfg) = some s) :
    s.pc ≠ .asserted ∧ (s.pc = .off → KeysHeld cfg s) ∧
      (∀ m m' p, s.maps m p = true → s.maps m' p = true →
        m = m' ∨ p ∈ s.pc.moving ∧ m ≠ .dither ∧ m' ≠ .dither) ∧
      ∀ p, cfg.configured p = true → s.irqEnabled p = false →
        (∃ m, s.maps m p = true) ∨ p ∈ s.pc.owned := by
  have hinv : KeyInv cfg s := (Transition.along_of_forall (fun _ _ => trivial) _ es).preserves
    (fun _ _ _ hs _ ht => gpioStep_inv hs ht) h (keyInv_init cfg)
  refine ⟨fun hpc => ?_, fun hpc => ?_, hinv.maps.pins.exclusive, hinv.maps.pins.disabled⟩
  · have hchecked := hinv.checked
    simp [Checked, hpc] at hchecked
  · have hpins := hinv.maps.pins
    have htimer := hinv.timer
    simp only [TimerInv, hpc] at htimer
    rw [hpc] at hpins
    exact ⟨fun m m' p hm hm' =>
        (hpins.exclusive m m' p hm hm').resolve_right fun hmoving => List.not_mem_nil hmoving.1,
      fun p hp hirq => (hpins.disabled p hp hirq).resolve_right List.not_mem_nil, htimer.2⟩

/-- A board with one key. -/
def oneKey : GpioKeyConfig :=
  ⟨1, fun p => p == 0, fun _ => 1, 80 * 16, 40 * 16, ⟨400 * 16, 1500 * 16, 2000 * 16, 500 * 16,
    40 * 16⟩, fun p hp => by rw [beq_iff_eq.1 hp]; exact Nat.zero_lt_one⟩

/-- The key is pressed, and after the debounce interval the handler has taken `n` steps. -/
def pressedKey (n : Nat) : List GpioEvent :=
  [.irq 0 true 0, .expire] ++ List.replicate n (.run ⟨true, 2000, 0, false⟩)

/-- Within a call the key is in two maps, and the timer is not armed. -/
theorem pressedKey_in_two_maps :
    ∃ s, (pressedKey 18).foldlM (gpioStep oneKey) (.init oneKey) = some s ∧
      s.maps .debounce 0 = true ∧ s.maps .down 0 = true ∧ s.timerArmed = false :=
  ⟨_, rfl, rfl, rfl, rfl⟩

/-- At the end of the call the key is down, and the timer is armed. -/
theorem keys_not_stuck_pressedKey :
    ∃ s, (pressedKey 26).foldlM (gpioStep oneKey) (.init oneKey) = some s ∧
      s.maps .down 0 = true ∧ KeysHeld oneKey s := by
  obtain ⟨s, hrun, hpc, hdown⟩ : ∃ s,
      (pressedKey 26).foldlM (gpioStep oneKey) (.init oneKey) = some s ∧ s.pc = .off ∧
        s.maps .down 0 = true := ⟨_, rfl, rfl, rfl⟩
  exact ⟨s, hrun, hdown, (keys_not_stuck oneKey hrun).2.1 hpc⟩

end EarbudFirmware.Hal
