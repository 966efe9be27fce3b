import QUniBone.Lib.Thread
import QUniBone.Disk.Dma
import QUniBone.Mscp.Polling

/-!
# Memory accesses of the UDA50

`GetNextCommand`, `PostResponse`, step 4 of `worker` and `DoDiskTransfer`, each as the program of
a thread. What is shared are the fields of `uda_c`; each call is one of `DMA()`, and its answer
are the words read, or nothing after a timeout.

* `Port`, `Access`, `Crash`: the shared fields, the calls, and how a thread comes to an end.
* `getNextCommand`, `postResponse`, `clearCommArea`, `serve`: the programs.
-/

namespace QUniBone.UDA50

open Disk MscpServer

/-- A drive, as far as a command asks. -/
structure Drive where
  isAvailable : Bool
  isOnline : Bool
  blockCount : ℕ
  rctBlockCount : ℕ

structure Port where
  initStep : InitStep
  nextStep : Bool
  pollState : PollState
  ringBase : ℕ
  commandRingLength : ℕ
  responseRingLength : ℕ
  commandRingPointer : ℕ
  responseRingPointer : ℕ
  purgeInterruptEnable : Bool
  /-- SA shows a port error -/
  portError : Bool
  /-- port errors so far -/
  errors : ℕ
  drives : ℕ → Drive

namespace Port

def getCommandDescriptorAddress (p : Port) (index : ℕ) : ℕ :=
  p.ringBase + p.responseRingLength * 4 + index * 4

def getResponseDescriptorAddress (p : Port) (index : ℕ) : ℕ := p.ringBase + index * 4

end Port

/-- What a call is for. A response carries a reference number. -/
inductive Purpose
  | commandDescriptor
  | commandLength
  | command
  | previousCommand
  | commandRelease
  | responseDescriptor
  | responseLength
  | response (referenceNumber : BitVec 32)
  | previousResponse
  | responseRelease
  | commArea
  | data

structure Access where
  purpose : Purpose
  call : DmaCall

inductive Crash
  | assertion
  /-- access through a null pointer -/
  | nullPointer
  /-- modulo by a ring length of 0 -/
  | division
  /-- `FATAL`: no room in the response ring -/
  | noRoom

abbrev Prog := Thread Port Access (Option (List BusWord)) Crash

/-! ## Words and messages -/

def MAX_MESSAGE_LENGTH : ℕ := 0x1000

/-- `sizeof(Message)` -/
def messageSize : ℕ := 4 + (12 + 10240)

/-- `HEADER_SIZE` -/
def headerSize : ℕ := 12

/-- A word of a buffer that was filled with 0xc3 before the transfer. -/
def word (ws : List BusWord) (i : ℕ) : BusWord := ws.getD i 0xc3c3

structure Descriptor where
  envelope : ℕ
  flag : Bool
  ownership : Bool

def Descriptor.ofWords (ws : List BusWord) : Descriptor where
  envelope := (word ws 0).toNat + (word ws 1 &&& 3).toNat * 2 ^ 16
  flag := (word ws 1).getLsbD 14
  ownership := (word ws 1).getLsbD 15

/-- A message, with the parameters of a disk transfer. -/
structure Message where
  messageLength : ℕ
  referenceNumber : BitVec 32
  unitNumber : ℕ
  opcode : ℕ
  byteCount : ℕ
  bufferPhysicalAddress : ℕ
  lbn : ℕ

/-- two words, the low one first -/
def long (ws : List BusWord) (i : ℕ) : ℕ := (word ws i).toNat + (word ws (i + 1)).toNat * 2 ^ 16

def Message.ofWords (ws : List BusWord) : Message where
  messageLength := (word ws 0).toNat
  referenceNumber := BitVec.ofNat 32 (long ws 2)
  unitNumber := (word ws 4).toNat
  opcode := (word ws 6 &&& 0xff).toNat
  byteCount := long ws 8
  bufferPhysicalAddress := long ws 10
  lbn := long ws 16

/-- `a - b` in 32 bits -/
def sub32 (a b : ℕ) : ℕ := (a + 2 ^ 32 - b) % 2 ^ 32

/-! ## DMA -/

/-- `DMA()`, after its own assertions -/
def dma (space : ℕ) (purpose : Purpose) (c : DmaCall) : Prog (Option (List BusWord)) :=
  if c.Asserted space then .call ⟨purpose, c⟩ .done else .fail .assertion

/-- `DMAWrite` from a buffer of so many words -/
def dmaWrite (space : ℕ) (purpose : Purpose) (address lengthInBytes bufferWords : ℕ) :
    Prog (Option (List BusWord)) :=
  if lengthInBytes % 2 ≠ 0 ∨ address ≥ space then .fail .assertion
  else dma space purpose ⟨.dato, address, lengthInBytes / 2, bufferWords⟩

def dmaWriteWord (space : ℕ) (purpose : Purpose) (address : ℕ) : Prog (Option (List BusWord)) :=
  dmaWrite space purpose address 2 1

def dmaRead (space : ℕ) (purpose : Purpose) (address lengthInBytes bufferSize : ℕ) :
    Prog (Option (List BusWord)) :=
  if bufferSize < lengthInBytes ∨ lengthInBytes % 2 ≠ 0 ∨ address ≥ space then
    .fail .assertion
  else dma space purpose ⟨.dati, address, lengthInBytes / 2, bufferSize / 2⟩

/-- `PortError()` -/
def portError : Prog Unit :=
  .write (fun p => { p with
      portError := true
      errors := p.errors + 1
      initStep := .uninitialized
      nextStep := true }) (.done ())

/-! ## GetNextCommand -/

inductive Next
  | error
  | empty
  | message (m : Message)

def nextError : Prog Next := portError.bind fun _ => .done .error

/-- Is the previous descriptor the port's? `onTimeout` follows if it cannot be read. -/
def checkTransition {α : Type} (space : ℕ) (purpose : Purpose) (d : Descriptor)
    (length pointer : Port → ℕ) (address : Port → ℕ → ℕ) (onTimeout : Prog α)
    (k : Bool → Prog α) : Prog α :=
  if d.flag = false then k false
  else .read fun p =>
    if length p = 1 then k true
    else if length p = 0 then .fail .division
    else
      (dmaRead space purpose (address p (sub32 (pointer p) 1 % length p)) 4 4).bind
        fun r => match r with
          | none => onTimeout
          | some ws => k (Descriptor.ofWords ws).ownership

/-- The message is returned: its descriptor is released, and the pointer moves on. -/
def releaseCommand (space descriptorAddress : ℕ) (m : Message) (doInterrupt : Bool) :
    Prog Next :=
  (dmaWrite space .commandRelease descriptorAddress 4 2).bind fun r =>
    if r.isNone then nextError
    else .read fun p =>
      if p.commandRingLength = 0 then .fail .division
      else .write (fun p => { p with
          commandRingPointer := (p.commandRingPointer + 1) % p.commandRingLength }) <|
        if doInterrupt then .read fun p =>
          (dmaWriteWord space .commArea (sub32 p.ringBase 4)).bind fun _ => .done (.message m)
        else .done (.message m)

/-- The message of a descriptor that the host has handed over. -/
def fetchCommand (space descriptorAddress : ℕ) (d : Descriptor) : Prog Next :=
  (dmaRead space .commandLength (sub32 d.envelope 4) 2 2).bind fun r =>
    let messageLength := (word (r.getD []) 0).toNat
    if r.isNone ∨ messageLength = 0 ∨ messageLength ≥ MAX_MESSAGE_LENGTH then nextError
    else
      (dmaRead space .command (sub32 d.envelope 4) (messageLength + 4) messageSize).bind
        fun r => match r with
          | none => nextError
          | some ws =>
            checkTransition space .previousCommand d Port.commandRingLength Port.commandRingPointer
              Port.getCommandDescriptorAddress nextError fun doInterrupt =>
                releaseCommand space descriptorAddress (Message.ofWords ws) doInterrupt

def getNextCommand (space : ℕ) : Prog Next :=
  .read fun p =>
    let descriptorAddress := p.getCommandDescriptorAddress p.commandRingPointer
    (dmaRead space .commandDescriptor descriptorAddress 4 4).bind fun r => match r with
      | none => nextError
      | some ws =>
        let d := Descriptor.ofWords ws
        if d.ownership then fetchCommand space descriptorAddress d else .done .empty

/-! ## PostResponse -/

/-- The descriptor of a response is released, and the pointer moves on. -/
def releaseResponse (space descriptorAddress : ℕ) (doInterrupt : Bool) : Prog Unit :=
  (dmaWrite space .responseRelease descriptorAddress 4 2).bind fun _ =>
    let advance : Prog Unit := .read fun p =>
      if p.responseRingLength = 0 then .fail .division
      else .write (fun p => { p with
          responseRingPointer := (p.responseRingPointer + 1) % p.responseRingLength }) (.done ())
    if doInterrupt then .read fun p =>
      (dmaWriteWord space .commArea (sub32 p.ringBase 2)).bind fun _ => advance
    else advance

/-- The result of `DMAWrite` is ignored, as that of the length of the host's buffer. -/
def writeResponse (space descriptorAddress : ℕ) (d : Descriptor) (m : Message) : Prog Unit :=
  (dmaRead space .responseLength (sub32 d.envelope 4) 2 2).bind fun _ =>
    if m.messageLength = 0 then .fail .assertion
    else
      (dmaWrite space (.response m.referenceNumber) (sub32 d.envelope 4) (m.messageLength + 4)
        (messageSize / 2)).bind fun _ =>
          checkTransition space .previousResponse d Port.responseRingLength
            Port.responseRingPointer Port.getResponseDescriptorAddress (.fail .nullPointer)
            fun doInterrupt =>
              releaseResponse space descriptorAddress doInterrupt

/-- `PostResponse`, and the `FATAL` of its caller -/
def postResponse (space : ℕ) (m : Message) : Prog Unit :=
  .read fun p =>
    let descriptorAddress := p.getResponseDescriptorAddress p.responseRingPointer
    (dmaRead space .responseDescriptor descriptorAddress 4 4).bind fun r => match r with
      | none => .fail .nullPointer
      | some ws =>
        let d := Descriptor.ofWords ws
        if d.ownership then writeResponse space descriptorAddress d m else .fail .noRoom

/-! ## Step 4 -/

/-- Header and rings are cleared, and the descriptors for responses are the port's. The bounds
of the loops are read once. -/
def clearCommArea (space : ℕ) : Prog Unit :=
  .read fun p =>
    let headerSize := if p.purgeInterruptEnable then 8 else 4
    let words := ((p.responseRingLength + p.commandRingLength) * 4 + headerSize) / 2
    (Thread.forEach (fun i =>
        (dmaWriteWord space .commArea (sub32 (p.ringBase + i * 2) headerSize)).bind
          fun _ => .done ()) (List.range words)).bind fun _ =>
      Thread.forEach (fun i =>
        (dmaWrite space .commArea (p.getResponseDescriptorAddress i) 4 2).bind
          fun _ => .done ()) (List.range p.responseRingLength)

/-! ## The commands -/

/-- Opcodes -/
def ACCESS : ℕ := 0x10
def AVAILABLE : ℕ := 0x8
def COMPARE_HOST_DATA : ℕ := 0x20
def ERASE : ℕ := 0x12
def GET_COMMAND_STATUS : ℕ := 0x2
def GET_UNIT_STATUS : ℕ := 0x3
def ONLINE : ℕ := 0x9
def READ : ℕ := 0x21
def REPLACE : ℕ := 0x14
def SET_CONTROLLER_CHARACTERISTICS : ℕ := 0x4
def SET_UNIT_CHARACTERISTICS : ℕ := 0xa
def WRITE : ℕ := 0x22

def driveCount : ℕ := 8

def blockSize : ℕ := 512

/-- `GetDrive`, of a unit whose image is open -/
def Port.availableDrive (p : Port) (unit : ℕ) : Option Drive :=
  if unit < driveCount ∧ (p.drives unit).isAvailable = true then some (p.drives unit) else none

/-- The checks of `DoDiskTransfer` on block number and byte count. Sizes are in 32 bits. -/
def Drive.Accepts (d : Drive) (m : Message) : Prop :=
  m.lbn < d.blockCount + d.rctBlockCount ∧
  m.byteCount ≤ (d.blockCount + d.rctBlockCount - m.lbn) * blockSize % 2 ^ 32 ∧
  (m.lbn ≥ d.blockCount → m.byteCount = blockSize)

instance decidableAccepts (d : Drive) (m : Message) : Decidable (d.Accepts m) :=
  inferInstanceAs (Decidable (_ ∧ _ ∧ _))

/-- The transfer between memory and a buffer of `ByteCount` bytes. The result says whether it
ended with HOST_BUFFER_ACCESS_ERROR because of NXM. -/
def transferData (space : ℕ) (m : Message) : Prog Bool :=
  let address := m.bufferPhysicalAddress % 2 ^ 24
  if m.opcode = READ then
    (dmaWrite space .data address m.byteCount (m.byteCount / 2)).bind fun r => .done r.isNone
  else if m.opcode = WRITE ∨ m.opcode = COMPARE_HOST_DATA then
    (dmaRead space .data address m.byteCount m.byteCount).bind fun r => .done r.isNone
  else .done false

def doDiskTransfer (space : ℕ) (m : Message) : Prog Bool :=
  .read fun p => match p.availableDrive m.unitNumber with
    | none => .done false
    | some d => if d.isOnline = true ∧ d.Accepts m then transferData space m else .done false

/-- The length of the response, where the command sets it. -/
def responseLength (m : Message) : ℕ :=
  if m.opcode = ACCESS ∨ m.opcode = COMPARE_HOST_DATA ∨ m.opcode = ERASE ∨ m.opcode = READ ∨
      m.opcode = WRITE then headerSize + 20
  else if m.opcode = GET_COMMAND_STATUS then headerSize + 8
  else if m.opcode = GET_UNIT_STATUS then headerSize + 36
  else if m.opcode = ONLINE ∨ m.opcode = SET_UNIT_CHARACTERISTICS then headerSize + 32
  else if m.opcode = SET_CONTROLLER_CHARACTERISTICS then headerSize + 16
  else if m.opcode = REPLACE then headerSize
  else m.messageLength

def setOnline (unit : ℕ) (online : Bool) (p : Port) : Port :=
  if (p.availableDrive unit).isSome then
    { p with drives := Function.update p.drives unit { p.drives unit with isOnline := online } }
  else p

/-- What a command does before its response is posted. -/
def execute (space : ℕ) (m : Message) : Prog Bool :=
  if m.opcode = ONLINE then .write (setOnline m.unitNumber true) (.done false)
  else if m.opcode = AVAILABLE then .write (setOnline m.unitNumber false) (.done false)
  else if m.opcode = ACCESS ∨ m.opcode = COMPARE_HOST_DATA ∨ m.opcode = ERASE ∨
      m.opcode = READ ∨ m.opcode = WRITE then doDiskTransfer space m
  else .done false

/-- A command is executed and answered. -/
def serve (space : ℕ) (m : Message) : Prog Unit :=
  (execute space m).bind fun _ =>
    postResponse space { m with messageLength := responseLength m }

end QUniBone.UDA50
