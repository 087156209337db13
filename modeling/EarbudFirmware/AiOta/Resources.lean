import EarbudFirmware.AiOta.Resume

/-!
# What a download session takes from the system

A BEGIN command asks for a high frequency, a link that stays awake and short connection intervals,
and the end of the image gives them back. The flag `isInOtaState` is to say which of the two is due:
both functions test it, one clears it, and so does the reset of the environment. No function sets
it, so a session is always entered and never left.

## Main definitions

* `ResourceCall` — a request to the system, or its release
* `enterOtaState`, `exitOtaState` — the functions of the source
* `resourceStep` — one event of a download, with what it asks for
* `FlagRight`, `Settled` — the flag is set while a session holds its resources, and a session that
  is over has released them

## Main results

* `calls_eq_of_run` — the calls of a run: one entry for each BEGIN command, and nothing else
* `settled_iff_no_begin` — a run settles exactly when it has no BEGIN command
-/

namespace EarbudFirmware.AiOta

/-! ### Calls -/

/-- `OTA_PATH_E`. -/
inductive OtaPath where
  | invalid | bt | ble
  deriving DecidableEq

/-- The frequencies that are asked for, of `APP_SYSFREQ_FREQ_T`. -/
inductive OtaFreq where
  | freq32K | freq104M
  deriving DecidableEq

/-- What is requested and released under a name of its own; a connection parameter mode by its
name. -/
inductive Resource where
  | activeMode | twsBandwidth | preventSniff | connParamOta | connParamOtaSlower
  deriving DecidableEq

/-- A call into the system: `app_sysfreq_req`, `btif_me_stop_sniff`, or one of the calls that set
and clear a resource. -/
inductive ResourceCall where
  | sysfreqReq (freq : OtaFreq)
  | stopSniff
  | request (r : Resource)
  | release (r : Resource)
  deriving DecidableEq

/-- The build options that the functions ask for: `IBRT` without `FREEMAN_ENABLED_STERO`, and
`__IAG_BLE_INCLUDE__`. -/
structure ResourceBuild where
  ibrt : Bool
  ble : Bool

/-- A download with the flag, the path, and the calls made so far, the oldest first. -/
structure OtaResources where
  download : Download
  isInOtaState : Bool
  currentPath : OtaPath
  calls : List ResourceCall

/-- What the parameters of an event and the other earbud say. -/
structure ResourceEvent where
  event : OtaEvent
  path : OtaPath
  /-- The link to the other earbud is connected, and this one is the master of it. -/
  twsMaster : Bool

/-- The calls that `_enter_ota_state` makes outside of a session. -/
def enterCalls (b : ResourceBuild) (path : OtaPath) (twsMaster : Bool) : List ResourceCall :=
  [.sysfreqReq .freq104M] ++
    (if b.ibrt then
      [.request .twsBandwidth] ++ (if twsMaster then [.stopSniff] else []) ++
        [.request .preventSniff]
    else [.request .activeMode]) ++
    if b.ble ∧ path = .ble then [.request .connParamOta] else []

/-- The calls that `_exit_ota_state` makes in a session. -/
def exitCalls (b : ResourceBuild) (path : OtaPath) : List ResourceCall :=
  [.release .activeMode] ++
    (if b.ibrt then [.release .preventSniff, .release .twsBandwidth] else []) ++
    (if b.ble ∧ path = .ble then [.release .connParamOta, .release .connParamOtaSlower] else []) ++
    [.sysfreqReq .freq32K]

namespace OtaResources

variable (s : OtaResources)

/-- `_enter_ota_state`. -/
def enterOtaState (b : ResourceBuild) (path : OtaPath) (twsMaster : Bool) : OtaResources :=
  if s.isInOtaState then s
  else { s with currentPath := path, calls := s.calls ++ enterCalls b path twsMaster }

/-- `_exit_ota_state`. -/
def exitOtaState (b : ResourceBuild) : OtaResources :=
  if s.isInOtaState then
    { s with
      currentPath := .invalid
      isInOtaState := false
      calls := s.calls ++ exitCalls b s.currentPath }
  else s

/-- The flag and the path after `_reset_env`. -/
def resetState : OtaResources := { s with isInOtaState := false, currentPath := .invalid }

/-- A command, with what follows it. -/
def afterCommand (b : ResourceBuild) (cmd : OtaCommand) (path : OtaPath) (twsMaster : Bool) :
    OtaResources :=
  match cmd with
  | .begin _ => s.enterOtaState b path twsMaster
  | .data => s
  | .apply | .abort => s.resetState

/-- Data, with what follows the image. -/
def afterData (b : ResourceBuild) (complete : Bool) : OtaResources :=
  if complete then s.exitOtaState b else s

end OtaResources

/-- The data of the event completes the image. -/
def Download.completes (s : Download) (len : Nat) : Bool :=
  let t := s.received (s.env.image.chunk s.env.receivedDataSize len)
  t.env.receivedDataSize = t.env.totalImageSize

/-- One event; `none` is a failed assertion. -/
def resourceStep (b : ResourceBuild) (s : OtaResources) (e : ResourceEvent) :
    Option OtaResources := do
  let d ← otaStep s.download e.event
  let t := { s with download := d }
  match e.event with
  | .command cmd _ _ => some (t.afterCommand b cmd e.path e.twsMaster)
  | .fwDataWrite len _ _ => some (t.afterData b (s.download.completes len))
  | .enableSanityCheck _ => some t

/-- The environment after `ota_common_init_handler`, over records and flashes of any content. -/
def OtaResources.init (nv : OtaDevice → NvOtaInfo) (flash : OtaDevice → Flash) : OtaResources :=
  ⟨⟨resetEnv, nv, flash⟩, false, .invalid, []⟩

/-- The event is a BEGIN command. -/
def ResourceEvent.IsBegin (e : ResourceEvent) : Prop :=
  ∃ p custom insertAllowed, e.event = .command (.begin p) custom insertAllowed

namespace OtaResources

/-! ### Settled sessions -/

/-- The frequency after a call. -/
def callFreq (freq : OtaFreq) : ResourceCall → OtaFreq
  | .sysfreqReq f => f
  | _ => freq

/-- The frequency that was asked for last. -/
def frequency (s : OtaResources) : OtaFreq := s.calls.foldl callFreq .freq32K

/-- No session is open: the image is complete, whatever its verification says, or the environment
has been reset. -/
def Over (s : OtaResources) : Prop := s.download.env.currentStage ≠ .ongoing

/-- The flag is set from the acquisition, which begins with the high frequency, to the release,
which ends with the low one. -/
def FlagRight (s : OtaResources) : Prop := s.isInOtaState = true ↔ s.frequency = .freq104M

/-- The low frequency is back, and what has been requested has been released as often. -/
structure Settled (s : OtaResources) : Prop where
  frequency : s.frequency = .freq32K
  released : ∀ r, .request r ∈ s.calls →
    s.calls.count (.release r) = s.calls.count (.request r)

/-- The flag is right, and a session that is over is settled. -/
def Balanced (s : OtaResources) : Prop := s.FlagRight ∧ (s.Over → s.Settled)

end OtaResources

/-! ### Runs -/

/-- What an event adds to the calls when the flag is not set. -/
def ResourceEvent.calls (b : ResourceBuild) (e : ResourceEvent) : List ResourceCall :=
  match e.event with
  | .command (.begin _) _ _ => enterCalls b e.path e.twsMaster
  | _ => []

theorem ResourceEvent.calls_of_not_isBegin {b : ResourceBuild} {e : ResourceEvent}
    (h : ¬e.IsBegin) : e.calls b = [] := by
  obtain ⟨event, path, twsMaster⟩ := e
  cases event with
  | command cmd custom insertAllowed =>
    cases cmd with
    | begin p => exact absurd ⟨p, custom, insertAllowed, rfl⟩ h
    | data | apply | abort => rfl
  | fwDataWrite | enableSanityCheck => rfl

theorem ResourceEvent.calls_of_isBegin {b : ResourceBuild} {e : ResourceEvent}
    (h : e.IsBegin) : e.calls b = enterCalls b e.path e.twsMaster := by
  obtain ⟨p, custom, insertAllowed, hevent⟩ := h
  simp only [calls, hevent]

section Steps

variable {b : ResourceBuild} {s t : OtaResources} {e : ResourceEvent}

/-- A step is a step of the download. -/
theorem resourceStep_download (h : resourceStep b s e = some t) :
    otaStep s.download e.event = some t.download := by
  rw [resourceStep, Option.bind_eq_bind, Option.bind_eq_some_iff] at h
  obtain ⟨d, hd, hrest⟩ := h
  rw [hd]
  split at hrest <;> obtain rfl := Option.some.inj hrest
  · -- the state around the download is all that a command changes here
    rename_i cmd _ _ _
    cases cmd <;> simp only [OtaResources.afterCommand, OtaResources.resetState,
      OtaResources.enterOtaState]
    split <;> rfl
  · simp only [OtaResources.afterData, OtaResources.exitOtaState]
    split <;> [split; skip] <;> rfl
  · rfl

/-- With the flag cleared, a step keeps it so and adds the calls of its event. -/
theorem resourceStep_of_not_inOtaState (hs : s.isInOtaState = false)
    (h : resourceStep b s e = some t) :
    t.isInOtaState = false ∧ t.calls = s.calls ++ e.calls b := by
  rw [resourceStep, Option.bind_eq_bind, Option.bind_eq_some_iff] at h
  obtain ⟨d, -, hrest⟩ := h
  split at hrest <;> rename_i hevent <;> obtain rfl := Option.some.inj hrest
  · rename_i cmd custom insertAllowed
    cases cmd <;> simp [OtaResources.afterCommand, OtaResources.enterOtaState,
      OtaResources.resetState, ResourceEvent.calls, hevent, hs]
  · simp [OtaResources.afterData, OtaResources.exitOtaState, ResourceEvent.calls, hevent, hs]
  · simp [ResourceEvent.calls, hevent, hs]

/-- The flag is never set, and the calls of a run are those of its BEGIN commands. -/
theorem calls_eq_of_run {es : List ResourceEvent} (hs : s.isInOtaState = false)
    (h : es.foldlM (resourceStep b) s = some t) :
    t.isInOtaState = false ∧ t.calls = s.calls ++ es.flatMap (·.calls b) := by
  induction es generalizing s with
  | nil =>
    obtain rfl : s = t := by simpa using h
    exact ⟨hs, by simp⟩
  | cons e es ih =>
    obtain ⟨u, hu, hrest⟩ := Transition.foldlM_cons_eq_some h
    obtain ⟨hflag, hcalls⟩ := resourceStep_of_not_inOtaState hs hu
    obtain ⟨hflag', hcalls'⟩ := ih hflag hrest
    exact ⟨hflag', by rw [hcalls', hcalls, List.flatMap_cons, List.append_assoc]⟩

end Steps

/-- Nothing that entering asks for is a release. -/
theorem release_not_mem_enterCalls (b : ResourceBuild) (path : OtaPath) (twsMaster : Bool)
    (r : Resource) : .release r ∉ enterCalls b path twsMaster := by
  rw [enterCalls]
  split <;> split <;> [split; split; skip; skip] <;> simp

theorem release_not_mem_calls (b : ResourceBuild) (es : List ResourceEvent) (r : Resource) :
    .release r ∉ es.flatMap (·.calls b) := by
  intro hmem
  obtain ⟨e, -, he⟩ := List.mem_flatMap.1 hmem
  by_cases hbegin : e.IsBegin
  · rw [ResourceEvent.calls_of_isBegin hbegin] at he
    exact release_not_mem_enterCalls _ _ _ _ he
  · rw [ResourceEvent.calls_of_not_isBegin hbegin] at he
    exact absurd he List.not_mem_nil

/-- Whatever was asked for before, entering asks for the high frequency. -/
theorem foldl_enterCalls (b : ResourceBuild) (path : OtaPath) (twsMaster : Bool) (freq : OtaFreq) :
    (enterCalls b path twsMaster).foldl OtaResources.callFreq freq = .freq104M := by
  rw [enterCalls]
  split <;> split <;> [split; split; skip; skip] <;> rfl

/-- The high frequency is kept by every call of a run. -/
theorem foldl_calls_freq104M (b : ResourceBuild) (es : List ResourceEvent) :
    (es.flatMap (·.calls b)).foldl OtaResources.callFreq .freq104M = .freq104M := by
  induction es with
  | nil => rfl
  | cons e es ih =>
    rw [List.flatMap_cons, List.foldl_append]
    by_cases hbegin : e.IsBegin
    · rw [ResourceEvent.calls_of_isBegin hbegin, foldl_enterCalls, ih]
    · rw [ResourceEvent.calls_of_not_isBegin hbegin, List.foldl_nil, ih]

section Runs

variable {b : ResourceBuild} {nv : OtaDevice → NvOtaInfo} {flash : OtaDevice → Flash}
  {es : List ResourceEvent} {t : OtaResources}

/-- A run without a BEGIN command makes no call. -/
theorem calls_of_no_begin (h : es.foldlM (resourceStep b) (.init nv flash) = some t)
    (hno : ∀ e ∈ es, ¬e.IsBegin) : t.isInOtaState = false ∧ t.calls = [] := by
  obtain ⟨hflag, hcalls⟩ := calls_eq_of_run rfl h
  refine ⟨hflag, ?_⟩
  rw [hcalls, OtaResources.init, List.nil_append, List.flatMap_eq_nil_iff]
  exact fun e he => ResourceEvent.calls_of_not_isBegin (hno e he)

/-- After a BEGIN command the frequency stays high. -/
theorem frequency_of_begin (h : es.foldlM (resourceStep b) (.init nv flash) = some t)
    {e : ResourceEvent} (he : e ∈ es) (hbegin : e.IsBegin) : t.frequency = .freq104M := by
  obtain ⟨l, r, rfl⟩ := List.append_of_mem he
  rw [OtaResources.frequency, (calls_eq_of_run rfl h).2, OtaResources.init, List.nil_append,
    List.flatMap_append, List.flatMap_cons, List.foldl_append, List.foldl_append,
    ResourceEvent.calls_of_isBegin hbegin, foldl_enterCalls, foldl_calls_freq104M]

/-- Without a BEGIN command the state of a run is balanced. -/
theorem balanced_of_no_begin (h : es.foldlM (resourceStep b) (.init nv flash) = some t)
    (hno : ∀ e ∈ es, ¬e.IsBegin) : t.FlagRight ∧ t.Settled := by
  obtain ⟨hflag, hcalls⟩ := calls_of_no_begin h hno
  have hfreq : t.frequency = .freq32K := by rw [OtaResources.frequency, hcalls, List.foldl_nil]
  refine ⟨?_, hfreq, ?_⟩
  · simp [OtaResources.FlagRight, hflag, hfreq]
  · intro r hr
    rw [hcalls] at hr
    exact absurd hr List.not_mem_nil

/-- In every run of commands, data and resets, the flag is right in every state, and what a session
that is over has requested is released, exactly when the run has no BEGIN command; a session that is
over has then released nothing. -/
theorem settled_iff_no_begin (b : ResourceBuild) (nv : OtaDevice → NvOtaInfo)
    (flash : OtaDevice → Flash) (es : List ResourceEvent) (t : OtaResources)
    (h : es.foldlM (resourceStep b) (.init nv flash) = some t) :
    (t.Balanced ↔ ∀ e ∈ es, ¬e.IsBegin) ∧
      (t.Over → (t.Settled ↔ ∀ e ∈ es, ¬e.IsBegin)) ∧
        ∀ r, .release r ∉ t.calls := by
  refine ⟨⟨?_, ?_⟩, ?_, ?_⟩
  · rintro ⟨hflag, -⟩ e he hbegin
    have hset := hflag.2 (frequency_of_begin h he hbegin)
    rw [(calls_eq_of_run rfl h).1] at hset
    exact Bool.false_ne_true hset
  · intro hno
    obtain ⟨hflag, hsettled⟩ := balanced_of_no_begin h hno
    exact ⟨hflag, fun _ => hsettled⟩
  · refine fun _ => ⟨fun hsettled e he hbegin => ?_, fun hno => (balanced_of_no_begin h hno).2⟩
    exact OtaFreq.noConfusion (hsettled.frequency.symm.trans (frequency_of_begin h he hbegin))
  · intro r
    rw [(calls_eq_of_run rfl h).2]
    exact release_not_mem_calls b es r

end Runs

/-! ### A session -/

/-- A build for one earbud, with BLE. -/
def bleBuild : ResourceBuild := ⟨false, true⟩

/-- A session over BLE of an image of a byte, which is verified and applied. -/
def bleSession : List ResourceEvent :=
  [⟨.command (.begin (byteImage .app [49])) (some .ok) true, .ble, false⟩,
    ⟨.fwDataWrite 1 ⟨true, true, fun _ => none⟩ true, .ble, false⟩,
    ⟨.command .apply (some .ok) true, .ble, false⟩]

/-- The first session after a factory reset is over when its image is verified, and when it is
applied, and has asked for three things that it does not release. -/
theorem bleSession_not_settled :
    (∃ t, (bleSession.take 2).foldlM (resourceStep bleBuild) (.init factory.nv factory.flash) =
        some t ∧ t.download.env.currentStage = .done ∧ t.Over ∧ ¬t.Settled) ∧
      ∃ t, bleSession.foldlM (resourceStep bleBuild) (.init factory.nv factory.flash) = some t ∧
        t.calls = [.sysfreqReq .freq104M, .request .activeMode, .request .connParamOta] ∧
        t.Over ∧ ¬t.Balanced :=
  ⟨⟨_, rfl, rfl, OtaStage.noConfusion, fun h => OtaFreq.noConfusion h.frequency⟩,
    ⟨_, rfl, rfl, OtaStage.noConfusion,
      fun h => OtaFreq.noConfusion (h.2 OtaStage.noConfusion).frequency⟩⟩

/-- A run without a session, and one with a session. -/
theorem settled_iff_no_begin_runs :
    (∃ t, [⟨.command .abort (some .ok) true, .ble, false⟩].foldlM (resourceStep bleBuild)
        (.init factory.nv factory.flash) = some t ∧ t.Balanced) ∧
      ∃ t, bleSession.foldlM (resourceStep bleBuild) (.init factory.nv factory.flash) = some t ∧
        ¬t.Balanced := by
  refine ⟨⟨_, rfl, (settled_iff_no_begin bleBuild factory.nv factory.flash
    [⟨.command .abort (some .ok) true, .ble, false⟩] _ rfl).1.2 fun e he hbegin => ?_⟩,
    _, rfl, fun hbalanced => ?_⟩
  · obtain ⟨p, custom, insertAllowed, hevent⟩ := hbegin
    rw [List.mem_singleton.1 he] at hevent
    simp at hevent
  · exact (settled_iff_no_begin bleBuild factory.nv factory.flash bleSession _ rfl).1.1 hbalanced _
      List.mem_cons_self ⟨_, _, _, rfl⟩

end EarbudFirmware.AiOta
