import EarbudFirmware.Utils.Bytes

/-!
# The records of the prompt packages

Each language has a package in a slot of flash. A new language gets the slot behind the last
package, or, when all are taken, the one of the oldest package, which leaves the record before the
new one has been downloaded.

## Main definitions

* `PromptBuild` — the section of the packages
* `PromptInfo` — `NV_PROMPT_INFO_T`
* `recInit`, `recAddNewPackage`, `getPackageAddr` — the functions of the record
* `Prompts.step` — one event
-/

namespace EarbudFirmware.Prompt

open NorMemory (Content)

/-- `LANGUAGE_PACKAGE_SIZE`. -/
def languagePackageSize : Nat := 0x25800

/-- `PROMPT_INFO_MAX`. -/
def promptInfoMax : Nat := 40

/-- `PROMPT_IMAGE_HEADER_SIZE` and `PROMPT_CONTENT_INFO_SIZE`. -/
def promptImageHeaderSize : Nat := 16

def promptContentInfoSize : Nat := 12

/-- `PACKAGE_NODE_T`. -/
structure PackageNode where
  id : UInt8
  startAddr : Nat
  len : Nat

/-- `LOCAL_PACKAGE_MAX`, the section from `__prompt_start` to `__prompt_end`, and
`defaultPromptInfo`. The section has room for the packages, and its addresses differ in the lower
24 bits only. -/
structure PromptBuild where
  localPackageMax : Nat
  promptStart : Nat
  promptEnd : Nat
  defaultPromptInfo : PackageNode
  localPackageMax_pos : 0 < localPackageMax
  localPackageMax_lt : localPackageMax < 0x100
  promptStart_pos : 0 < promptStart
  room : promptStart + localPackageMax * languagePackageSize ≤ promptEnd
  promptEnd_lt : promptEnd < 0x100000000
  window : promptStart % 0x1000000 + (promptEnd - promptStart) ≤ 0x1000000

/-- `NV_PROMPT_INFO_T`. The entries of `packageInfo` from `localPackageMax` on are the memory behind
it. -/
structure PromptInfo where
  num : Nat
  packageInfo : Nat → PackageNode

/-- `PROMPT_IMAGE_HEADER_T`, as far as the record uses it. -/
structure ImageHeader where
  mainInfo : Nat
  contentNum : Nat
  lengths : List Nat

/-- `nv_record_prompt_parse_file`; `none` is a failing assertion. -/
def parseFile (flash : Content) (addr : Nat) : Option ImageHeader :=
  if le flash (addr + 8) 4 ≤ promptInfoMax then
    some ⟨le flash addr 4, le flash (addr + 8) 4, (List.range (le flash (addr + 8) 4)).map fun i =>
      le flash (addr + 12 + promptContentInfoSize * i + 8) 4⟩
  else none

/-- `nv_record_prompt_get_language_packet_size`. -/
def getLanguagePacketSize (h : ImageHeader) : Nat :=
  h.lengths.foldl (fun size length => (size + length) % 0x100000000)
    (promptImageHeaderSize + promptContentInfoSize * h.contentNum)

namespace PromptInfo

variable (p : PromptInfo)

/-- `nv_record_prompt_rec_add_new_package`. -/
def recAddNewPackage (info : PackageNode) : PromptInfo :=
  match (List.range p.num).find? fun i => (p.packageInfo i).id = info.id with
  | some i =>
    if info.startAddr = 0 then p
    else
      { p with packageInfo := Function.update p.packageInfo i { p.packageInfo i with
          startAddr := info.startAddr } }
  | none =>
    { num := (p.num + 1) % 0x100
      packageInfo := Function.update p.packageInfo p.num info }

variable (b : PromptBuild)

/-- The loop of `nv_record_prompt_rec_init` over the slots. -/
def registerSlots (flash : Content) : List Nat → PromptInfo → Option PromptInfo
  | [], p => some p
  | i :: is, p =>
    match parseFile flash ((b.promptStart + i * languagePackageSize) % 0x100000000) with
    | none => none
    | some h =>
      registerSlots flash is (p.recAddNewPackage
        ⟨.ofNat h.mainInfo, (b.promptStart + i * languagePackageSize) % 0x100000000,
          getLanguagePacketSize h⟩)

/-- `nv_record_prompt_rec_init`. -/
def recInit (flash : Content) : Option PromptInfo :=
  if p.num = 0 then
    (registerSlots b flash (List.range b.localPackageMax) p).map fun p =>
      if p.num = 0 then p.recAddNewPackage b.defaultPromptInfo else p
  else some p

/-- The oldest package leaves the record. -/
def dropOldest : PromptInfo where
  num := p.num - 1
  packageInfo i := if i < b.localPackageMax - 1 then p.packageInfo (i + 1) else p.packageInfo i

/-- The slot behind the last package. -/
def slotBehind : Nat :=
  let addr := (p.packageInfo (p.num - 1)).startAddr
  if addr % 0x1000000 < b.promptStart % 0x1000000 then b.promptStart
  else (addr + languagePackageSize) % 0x100000000

/-- `nv_record_prompt_get_package_addr`; `none` is a failing assertion. -/
def getPackageAddr (language : UInt8) (addNew : Bool) : Option (PromptInfo × Nat) :=
  if p.num = 0 then none
  else
    match (List.range b.localPackageMax).find? fun i => (p.packageInfo i).id = language with
    | some i =>
      let addr := (p.packageInfo i).startAddr
      some (p, if addNew = true ∧ addr < b.promptStart then b.promptStart else addr)
    | none =>
      if addNew then
        if b.localPackageMax ≤ p.num then some (p.dropOldest b, (p.packageInfo 0).startAddr)
        else some (p, p.slotBehind b)
      else some (p, 0)

end PromptInfo

/-- The record, and the address of the package that is being downloaded. -/
structure Prompts where
  info : PromptInfo
  pending : Option Nat

/-- What can happen: a boot, with what the flash holds; a lookup; the start of a download, and its
end, with the identifier that the package turns out to have, or its abandonment. -/
inductive PromptEvent where
  | boot (flash : Content)
  | lookup (language : UInt8)
  | download (language : UInt8)
  | complete (id : UInt8) (len : Nat)
  | abandon

/-- One event, if it can happen and no assertion fails. -/
def Prompts.step (b : PromptBuild) (s : Prompts) : PromptEvent → Option Prompts
  | .boot flash => (s.info.recInit b flash).map fun info => ⟨info, none⟩
  | .lookup language =>
    (s.info.getPackageAddr b language false).map fun r => ⟨r.1, s.pending⟩
  | .download language =>
    (s.info.getPackageAddr b language true).map fun r => ⟨r.1, some r.2⟩
  | .complete id len =>
    s.pending.map fun addr => ⟨s.info.recAddNewPackage ⟨id, addr, len⟩, none⟩
  | .abandon => some ⟨s.info, none⟩

end EarbudFirmware.Prompt
