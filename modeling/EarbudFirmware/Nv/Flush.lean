import EarbudFirmware.Nv.Record

/-!
# NV flush

`nv_record_extension_flush` rewrites the sector `main` with the record in RAM and then copies it to
the sector `bak`. The asynchronous path makes one flash call for each call of the function. The
synchronous path is cut at its flash calls: `SyncPoint` is the flash call at which it stands.

Erases and writes are queued by the flash service, which executes them in order. `ok` is the answer
of the service: the operation is queued, or its buffers are full.

## Main definitions

* `NvSystem` — the variables of the NV module, the flash and its queue
* `flushAsync`, `flushSync`, `resume` — `nv_record_extension_flush`
* `nvRecordExtensionInit` — `nv_record_extension_init`
* `Event`, `step` — the system, with power losses
-/

namespace EarbudFirmware.Nv

open NorMemory (Content Op overlay)

/-- `NV_STATE`. -/
inductive NvState where
  | idle
  | mainErasing | mainErased | mainWritting | mainWritePending | mainWritten | mainDone
  | bakErasing | bakErased | bakWritting | bakWritePending | bakWritten | bakDone
  deriving DecidableEq

/-- The states in which `nv_record_extension_flush` calls `nv_record_extension_flush_main`. -/
def NvState.isMain : NvState → Bool
  | .idle | .mainErasing | .mainErased | .mainWritting | .mainWritePending | .mainWritten => true
  | _ => false

/-- The flash call at which a synchronous flush stands. A `…Flush` call is made while the buffers
are full, a `…Drain` call until the queue is empty. -/
inductive SyncPoint where
  | mainErase | mainEraseFlush | mainWrite | mainWriteFlush | mainDrain
  | bakErase | bakEraseFlush | bakWrite | bakWriteFlush | bakDrain
  deriving DecidableEq

/-- The system: `nv_flush_state`, the payload of the record in RAM, `_nv_burn_buf`, the flash, the
queue of the module (oldest operation first), and the synchronous flush in progress. -/
structure NvSystem where
  isUpdate : Bool
  state : NvState
  ram : Content
  burnBuf : Content
  flash : Content
  queue : List Op
  sync : Option SyncPoint

variable (nv : NvConfig) (s : NvSystem)

/-- `norflash_api_erase` on a sector. -/
def NvConfig.eraseOp (x : Sector) : Op := .erase (nv.start x) extensionSize

/-- `norflash_api_write` of the record in `buf` to a sector. -/
def NvConfig.writeOp (x : Sector) (buf : Content) : Op := .program (nv.start x) nv.recordSize buf

/-- `norflash_api_read` of a sector: pending operations of the module are visible. -/
def NvSystem.read (x : Sector) : Content :=
  nv.sector (s.queue.foldl (fun f op => op.apply f) s.flash) x

/-- The snapshot in the state `NV_STATE_MAIN_ERASED`; `none` when the assertion fails. -/
def takeSnapshot : Option NvSystem :=
  let buf := recordBytes nv s.ram
  if dataIsValid nv buf then
    some { s with burnBuf := buf, state := .mainWritePending, isUpdate := false }
  else none

/-! ### The asynchronous path -/

/-- `nv_record_extension_flush_main(true)`. -/
def flushMainAsync (ok : Bool) : Option NvSystem :=
  match s.state with
  | .idle | .mainErasing =>
    if ok then some { s with state := .mainErased, queue := s.queue ++ [nv.eraseOp .main] }
    else some { s with state := .mainErasing }
  | .mainErased => takeSnapshot nv s
  | .mainWritePending =>
    if ok then
      some { s with state := .mainWritten, queue := s.queue ++ [nv.writeOp .main s.burnBuf] }
    else some s
  | .mainWritten => if s.queue.isEmpty then some { s with state := .mainDone } else some s
  | _ => none

/-- The end of `nv_record_extension_flush_bak`. -/
def bakEnd : NvSystem := if s.state = .bakDone then { s with state := .idle } else s

/-- `nv_record_extension_flush_bak(true)`. -/
def flushBakAsync (ok : Bool) : Option NvSystem :=
  match s.state with
  | .mainDone | .bakErasing =>
    if ok then some { s with state := .bakErased, queue := s.queue ++ [nv.eraseOp .bak] }
    else some { s with state := .bakErasing }
  | .bakErased | .bakWritting =>
    some { s with burnBuf := s.read nv .main, state := .bakWritePending }
  | .bakWritePending =>
    if ok then
      some { s with state := .bakWritten, queue := s.queue ++ [nv.writeOp .bak s.burnBuf] }
    else some s
  | .bakWritten => if s.queue.isEmpty then some (bakEnd { s with state := .bakDone }) else some s
  | _ => none

/-- `nv_record_extension_flush(true)`. -/
def flushAsync (ok : Bool) : Option NvSystem :=
  if s.state = .idle ∧ s.isUpdate = false then some s
  else if s.state.isMain then flushMainAsync nv s ok
  else flushBakAsync nv s ok

/-! ### The synchronous path -/

/-- `nv_record_extension_flush_main(false)` from the write on. -/
def syncMainWrite : NvSystem :=
  { s with sync := some (if s.state = .mainWritePending then .mainWrite else .mainDrain) }

/-- `nv_record_extension_flush_main(false)` after the erase. -/
def syncMainSnapshot : Option NvSystem :=
  if s.state = .mainErased then (takeSnapshot nv s).map syncMainWrite else some (syncMainWrite s)

/-- `nv_record_extension_flush_main(false)`. -/
def syncMain : Option NvSystem :=
  if s.state = .idle ∨ s.state = .mainErasing then some { s with sync := some .mainErase }
  else syncMainSnapshot nv s

/-- `nv_record_extension_flush_bak(false)` from the write on. -/
def syncBakWrite : NvSystem :=
  { s with sync := some (if s.state = .bakWritePending then .bakWrite else .bakDrain) }

/-- `nv_record_extension_flush_bak(false)` after the erase. -/
def syncBakRead : NvSystem :=
  if s.state = .bakErased ∨ s.state = .bakWritten then
    syncBakWrite { s with burnBuf := s.read nv .main, state := .bakWritePending }
  else syncBakWrite s

/-- `nv_record_extension_flush_bak(false)`. -/
def syncBak : NvSystem :=
  if s.state = .mainDone ∨ s.state = .bakErasing then { s with sync := some .bakErase }
  else syncBakRead nv s

/-- `nv_record_extension_flush(false)`, from the head of its loop. -/
def flushSync : Option NvSystem :=
  if s.state = .idle ∧ s.isUpdate = false then some { s with sync := none }
  else if s.state.isMain then syncMain nv s
  else some (syncBak nv s)

/-- A synchronous flush makes the flash call at which it stands and goes on to the next one. -/
def resume (ok : Bool) : SyncPoint → Option NvSystem
  | .mainErase =>
    if ok then
      syncMainSnapshot nv { s with state := .mainErased, queue := s.queue ++ [nv.eraseOp .main] }
    else some { s with sync := some .mainEraseFlush }
  | .mainEraseFlush => some { s with sync := some (if ok then .mainErase else .mainEraseFlush) }
  | .mainWrite =>
    if ok then
      some { s with state := .mainWritten, queue := s.queue ++ [nv.writeOp .main s.burnBuf]
                    sync := some .mainDrain }
    else some { s with sync := some .mainWriteFlush }
  | .mainWriteFlush => some { s with sync := some (if ok then .mainWrite else .mainWriteFlush) }
  | .mainDrain =>
    if s.queue.isEmpty then some (syncBak nv { s with state := .mainDone }) else some s
  | .bakErase =>
    if ok then
      some (syncBakRead nv { s with state := .bakErased, queue := s.queue ++ [nv.eraseOp .bak] })
    else some { s with sync := some .bakEraseFlush }
  | .bakEraseFlush => some { s with sync := some (if ok then .bakErase else .bakEraseFlush) }
  | .bakWrite =>
    if ok then
      some { s with state := .bakWritten, queue := s.queue ++ [nv.writeOp .bak s.burnBuf]
                    sync := some .bakDrain }
    else some { s with sync := some .bakWriteFlush }
  | .bakWriteFlush => some { s with sync := some (if ok then .bakWrite else .bakWriteFlush) }
  | .bakDrain =>
    if s.queue.isEmpty then flushSync nv (bakEnd { s with state := .bakDone }) else some s

/-! ### Start and restart -/

/-- The sector from which `nv_record_extension_init` loads. -/
def loadedSector (flash : Content) : Sector :=
  if dataIsValid nv (nv.sector flash .main) then .main else .bak

/-- `nv_record_extension_init` after a reset; without a valid sector the defaults are built. -/
def nvRecordExtensionInit (flash : Content) : Option NvSystem :=
  let mainIsValid := dataIsValid nv (nv.sector flash .main)
  let bakIsValid := dataIsValid nv (nv.sector flash .bak)
  let s : NvSystem :=
    { isUpdate := false, state := .idle, ram := nv.initial, burnBuf := fun _ => 0, flash
      queue := [], sync := none }
  let s :=
    if mainIsValid then
      if !bakIsValid then { s with isUpdate := true, state := .mainDone } else s
    else if bakIsValid then { s with isUpdate := true, state := .idle } else s
  let s :=
    if mainIsValid || bakIsValid then
      { s with ram := overlay 0 nv.validLen
                 (fun i => nv.sector flash (loadedSector nv flash) (headerSize + i)) s.ram }
    else { s with ram := nv.defaults, isUpdate := true }
  if s.isUpdate then flushSync nv s else some s

/-! ### The system -/

/-- What happens: other code changes the record in RAM or calls `nv_record_extension_update`, the
flash service executes the oldest operation completely or in part, a flush is called or goes on, or
the power is lost and comes back. -/
inductive Event where
  | ram (payload : Content)
  | update
  | complete
  | suspend (cells : Content)
  | flushAsync (ok : Bool)
  | flushSync
  | resume (ok : Bool)
  | boot

/-- The step function. The mutex of `nv_record_extension_flush` keeps a second flush out. -/
def step (s : NvSystem) : Event → Option NvSystem
  | .ram payload => some { s with ram := payload }
  | .update => some { s with isUpdate := true }
  | .complete =>
    match s.queue with
    | [] => none
    | op :: q => some { s with flash := op.apply s.flash, queue := q }
  | .suspend cells => if s.queue.isEmpty then none else some { s with flash := cells }
  | .flushAsync ok => if s.sync.isNone then flushAsync nv s ok else none
  | .flushSync => if s.sync.isNone then flushSync nv s else none
  | .resume ok => s.sync.bind (resume nv s ok)
  | .boot => nvRecordExtensionInit nv s.flash

end EarbudFirmware.Nv
