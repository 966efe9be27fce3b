import QUniBone.Mscp.PortThreads
import QUniBone.Lib.Transition

/-!
# UDA50: memory accesses stay in the address space

* `RingOk`: header and rings lie in the address space.
* `Valid`: descriptors, messages and buffers that the host may give to the port.
* `spaceContract`: on these conditions each program calls `DMA()` with arguments that it accepts.
-/

namespace QUniBone.UDA50

open Disk MscpServer Thread

/-- The size of the header in front of the rings. -/
def Port.commHeader (p : Port) : ℕ := if p.purgeInterruptEnable then 8 else 4

structure RingOk (space : ℕ) (p : Port) : Prop where
  command_pos : 1 ≤ p.commandRingLength
  response_pos : 1 ≤ p.responseRingLength
  command_lt : p.commandRingPointer < p.commandRingLength
  response_lt : p.responseRingPointer < p.responseRingLength
  header_le : p.commHeader ≤ p.ringBase
  end_le : p.ringBase + (p.responseRingLength + p.commandRingLength) * 4 ≤ space

/-- An envelope that has room for `longest` bytes. -/
def EnvelopeOk (space longest : ℕ) (d : Descriptor) : Prop :=
  d.ownership = true → 4 ≤ d.envelope ∧ d.envelope + longest ≤ space

/-- A response with an even number of bytes, and a buffer for the data that is not empty. -/
structure MessageOk (space longest : ℕ) (m : Message) : Prop where
  response_pos : responseLength m ≠ 0
  response_even : responseLength m % 2 = 0
  response_le : responseLength m ≤ longest
  data : m.opcode = READ ∨ m.opcode = WRITE ∨ m.opcode = COMPARE_HOST_DATA →
    m.byteCount % 2 = 0 ∧ 0 < m.byteCount ∧
      m.bufferPhysicalAddress % 2 ^ 24 + m.byteCount ≤ space

/-- What the host has put into memory for an access. -/
def Valid (space longest : ℕ) (a : Access) (words : List BusWord) : Prop :=
  match a.purpose with
  | .commandDescriptor | .responseDescriptor => EnvelopeOk space longest (.ofWords words)
  | .commandLength =>
    (word words 0).toNat < MAX_MESSAGE_LENGTH →
      (word words 0).toNat % 2 = 0 ∧ (word words 0).toNat ≤ longest
  | .command => MessageOk space longest (.ofWords words)
  | _ => True

/-- What a program does to the fields of the port. -/
structure Guarantee (space : ℕ) (p q : Port) : Prop where
  ring : RingOk space q
  pollState : q.pollState = p.pollState
  initStep : q.initStep = p.initStep ∨ q.initStep = .uninitialized

/-- The port reads messages of at most `longest` bytes into its buffer. -/
def spaceContract (space longest : ℕ) : Contract Port Access (Option (List BusWord)) Crash where
  rely := RingOk space
  guarantee := Guarantee space
  call a := a.call.InSpace space
  answer a r := ∀ words, r = some words → Valid space longest a words
  fail e := e ≠ .assertion

variable {space longest : ℕ}

/-! ## The accesses -/

section Accesses

variable {post : Option (List BusWord) → Prop} {purpose : Purpose} {address length buffer : ℕ}

theorem sound_dma {c : DmaCall} (hc : c.InSpace space)
    (hpost : ∀ r, (∀ words, r = some words → Valid space longest ⟨purpose, c⟩ words) → post r) :
    (dma space purpose c).Sound (spaceContract space longest) post := by
  unfold dma
  rw [if_pos hc.asserted]
  exact ⟨hc, hpost⟩

/-- The arguments of `DMARead` and `DMAWrite`. -/
structure ArgsOk (space address length : ℕ) : Prop where
  even : length % 2 = 0
  pos : 0 < length
  end_le : address + length ≤ space

theorem ArgsOk.inSpace {cycle : Cycle} (h : ArgsOk space address length)
    (hbuffer : length / 2 ≤ buffer) :
    DmaCall.InSpace space ⟨cycle, address, length / 2, buffer⟩ := by
  obtain ⟨heven, hpos, hend⟩ := h
  refine ⟨?_, ?_, hbuffer⟩
  · show 1 ≤ length / 2
    omega
  · show address + 2 * (length / 2) ≤ space
    omega

theorem sound_dmaWrite (h : ArgsOk space address length) (hbuffer : length / 2 ≤ buffer)
    (hpost : ∀ r, post r) :
    (dmaWrite space purpose address length buffer).Sound (spaceContract space longest) post := by
  have hpos := h.pos
  have hend := h.end_le
  unfold dmaWrite
  rw [if_neg (by rw [h.even]; omega)]
  exact sound_dma (h.inSpace hbuffer) fun r _ => hpost r

theorem sound_dmaRead (h : ArgsOk space address length) (hbuffer : length ≤ buffer)
    (hpost : ∀ r, (∀ words, r = some words →
      Valid space longest ⟨purpose, ⟨.dati, address, length / 2, buffer / 2⟩⟩ words) → post r) :
    (dmaRead space purpose address length buffer).Sound (spaceContract space longest) post := by
  have hpos := h.pos
  have hend := h.end_le
  unfold dmaRead
  rw [if_neg (by rw [h.even]; omega)]
  exact sound_dma (h.inSpace (Nat.div_le_div_right hbuffer)) hpost

end Accesses

/-! ## The rings -/

namespace RingOk

variable {p : Port}

theorem commandDescriptor (h : RingOk space p) {i : ℕ} (hi : i < p.commandRingLength) :
    ArgsOk space (p.getCommandDescriptorAddress i) 4 := by
  have hend := h.end_le
  refine ⟨rfl, by omega, ?_⟩
  show p.ringBase + p.responseRingLength * 4 + i * 4 + 4 ≤ space
  omega

theorem responseDescriptor (h : RingOk space p) {i : ℕ} (hi : i < p.responseRingLength) :
    ArgsOk space (p.getResponseDescriptorAddress i) 4 := by
  have hend := h.end_le
  refine ⟨rfl, by omega, ?_⟩
  show p.ringBase + i * 4 + 4 ≤ space
  omega

theorem ringBase_le (h : RingOk space p) : 4 ≤ p.ringBase := by
  have hheader := h.header_le
  unfold Port.commHeader at hheader
  split at hheader <;> omega

/-- A word of the header, `k` bytes in front of the rings. -/
theorem header (h : RingOk space p) (hspace : space ≤ 2 ^ 22) {k : ℕ} (hk : 2 ≤ k)
    (hle : k ≤ 4) : ArgsOk space (sub32 p.ringBase k) 2 := by
  have hbase := h.ringBase_le
  have hend := h.end_le
  refine ⟨rfl, by omega, ?_⟩
  unfold sub32
  omega

end RingOk

theorem sound_portError : portError.Sound (spaceContract space longest) fun _ => True := by
  refine ⟨fun p hp => ?_, trivial⟩
  exact ⟨⟨hp.command_pos, hp.response_pos, hp.command_lt, hp.response_lt, hp.header_le, hp.end_le⟩,
    rfl, .inr rfl⟩

/-! ## The programs -/

/-- The bus has at most 22 address lines, and the longest response fits into the buffer. -/
structure Bounds (space longest : ℕ) : Prop where
  space_le : space ≤ 2 ^ 22
  longest_le : longest + 4 ≤ messageSize

/-- The bus, and what the host takes for the length of an envelope. -/
structure Host where
  space : ℕ
  longest : ℕ
  bounds : Bounds space longest

section Programs

variable (hb : Bounds space longest)
include hb

/-- The words in front of a message and the message itself, from the envelope on. -/
theorem envelope_args {d : Descriptor} (hd : 4 ≤ d.envelope ∧ d.envelope + longest ≤ space)
    {length : ℕ} (heven : length % 2 = 0) (hpos : 0 < length) (hle : length ≤ longest + 4) :
    ArgsOk space (sub32 d.envelope 4) length := by
  have hspace := hb.space_le
  refine ⟨heven, hpos, ?_⟩
  unfold sub32
  omega

theorem sound_dmaWriteWord {post : Option (List BusWord) → Prop} {purpose : Purpose} {p : Port}
    (hp : RingOk space p) {k : ℕ} (hk : 2 ≤ k) (hle : k ≤ 4) (hpost : ∀ r, post r) :
    (dmaWriteWord space purpose (sub32 p.ringBase k)).Sound (spaceContract space longest) post :=
  sound_dmaWrite (hp.header hb.space_le hk hle) (le_refl 1) hpost

omit hb in
theorem sound_checkTransition {α : Type} {post : α → Prop} {purpose : Purpose} {d : Descriptor}
    {length pointer : Port → ℕ} {address : Port → ℕ → ℕ} {onTimeout : Prog α} {k : Bool → Prog α}
    (hlength : ∀ p, RingOk space p → 1 ≤ length p)
    (haddress : ∀ p, RingOk space p → ∀ i < length p, ArgsOk space (address p i) 4)
    (htimeout : onTimeout.Sound (spaceContract space longest) post)
    (hk : ∀ b, (k b).Sound (spaceContract space longest) post) :
    (checkTransition space purpose d length pointer address onTimeout k).Sound
      (spaceContract space longest) post := by
  unfold checkTransition
  split
  · exact hk false
  · refine Sound.read fun p hp => ?_
    have hpos := hlength p hp
    split
    · exact hk true
    · rw [if_neg (by omega)]
      apply Sound.bind
      refine sound_dmaRead (haddress p hp _ (Nat.mod_lt _ hpos)) (le_refl 4) fun r _ => ?_
      cases r with
      | none => exact htimeout
      | some ws => exact hk _

/-- A fetched command is one whose response fits. -/
def NextOk (space longest : ℕ) : Next → Prop
  | .message m => MessageOk space longest m
  | _ => True

omit hb in
theorem sound_nextError :
    nextError.Sound (spaceContract space longest) (NextOk space longest) :=
  Sound.seq sound_portError fun _ _ => trivial

theorem sound_releaseCommand {address : ℕ} {m : Message} (haddress : ArgsOk space address 4)
    (hm : MessageOk space longest m) (doInterrupt : Bool) :
    (releaseCommand space address m doInterrupt).Sound (spaceContract space longest)
      (NextOk space longest) := by
  apply Sound.bind
  refine sound_dmaWrite haddress (le_refl 2) fun r => ?_
  split
  · exact sound_nextError
  · refine Sound.read fun p (hp : RingOk space p) => ?_
    have hpos := hp.command_pos
    rw [if_neg (by omega)]
    refine ⟨fun p hp => ?_, ?_⟩
    · exact ⟨⟨hp.command_pos, hp.response_pos, Nat.mod_lt _ hp.command_pos, hp.response_lt,
        hp.header_le, hp.end_le⟩, rfl, .inl rfl⟩
    · split
      · refine Sound.read fun p hp => ?_
        apply Sound.bind
        exact sound_dmaWriteWord hb hp (by omega) (le_refl 4) fun _ => hm
      · exact hm

theorem sound_fetchCommand {address : ℕ} {d : Descriptor} (haddress : ArgsOk space address 4)
    (hd : 4 ≤ d.envelope ∧ d.envelope + longest ≤ space) :
    (fetchCommand space address d).Sound (spaceContract space longest)
      (NextOk space longest) := by
  apply Sound.bind
  refine sound_dmaRead (envelope_args hb hd rfl (by omega) (by omega)) (le_refl 2)
    fun r hr => ?_
  dsimp only
  split
  · exact sound_nextError
  · rename_i hlength
    rw [not_or, not_or, not_le] at hlength
    obtain ⟨hsome, hpos, hlt⟩ := hlength
    cases r with
    | none => exact absurd rfl hsome
    | some ws =>
      -- the length that was read is even, and the message has room
      obtain ⟨heven, hle⟩ := hr ws rfl hlt
      apply Sound.bind
      refine sound_dmaRead (envelope_args hb hd ?_ ?_ ?_) ?_ fun r hr => ?_
      · show ((word ws 0).toNat + 4) % 2 = 0
        omega
      · omega
      · show (word ws 0).toNat + 4 ≤ longest + 4
        omega
      · have hbound := hb.longest_le
        show (word ws 0).toNat + 4 ≤ messageSize
        omega
      · cases r with
        | none => exact sound_nextError
        | some message =>
          refine sound_checkTransition (fun p hp => hp.command_pos)
            (fun p hp i hi => hp.commandDescriptor hi) sound_nextError fun doInterrupt => ?_
          exact sound_releaseCommand hb haddress (hr message rfl) doInterrupt

theorem sound_getNextCommand :
    (getNextCommand space).Sound (spaceContract space longest) (NextOk space longest) := by
  refine Sound.read fun p hp => ?_
  apply Sound.bind
  have haddress := hp.commandDescriptor hp.command_lt
  refine sound_dmaRead haddress (le_refl 4) fun r hr => ?_
  cases r with
  | none => exact sound_nextError
  | some ws =>
    dsimp only
    split
    · rename_i hownership
      exact sound_fetchCommand hb haddress (hr ws rfl hownership)
    · trivial

theorem sound_releaseResponse {address : ℕ} (haddress : ArgsOk space address 4)
    (doInterrupt : Bool) :
    (releaseResponse space address doInterrupt).Sound (spaceContract space longest)
      fun _ => True := by
  apply Sound.bind
  refine sound_dmaWrite haddress (le_refl 2) fun _ => ?_
  have hadvance : (Thread.read fun p : Port =>
      if p.responseRingLength = 0 then .fail .division
      else .write (fun p => { p with
          responseRingPointer := (p.responseRingPointer + 1) % p.responseRingLength })
        (.done ()) : Prog Unit).Sound (spaceContract space longest) fun _ => True := by
    refine Sound.read fun p (hp : RingOk space p) => ?_
    have hpos := hp.response_pos
    rw [if_neg (by omega)]
    refine ⟨fun p hp => ?_, trivial⟩
    exact ⟨⟨hp.command_pos, hp.response_pos, hp.command_lt, Nat.mod_lt _ hp.response_pos,
      hp.header_le, hp.end_le⟩, rfl, .inl rfl⟩
  dsimp only
  split
  · refine Sound.read fun p hp => ?_
    apply Sound.bind
    exact sound_dmaWriteWord hb hp (le_refl 2) (by omega) fun _ => hadvance
  · exact hadvance

theorem sound_writeResponse {address : ℕ} {d : Descriptor} {m : Message}
    (haddress : ArgsOk space address 4) (hd : 4 ≤ d.envelope ∧ d.envelope + longest ≤ space)
    (hpos : m.messageLength ≠ 0) (heven : m.messageLength % 2 = 0)
    (hle : m.messageLength ≤ longest) :
    (writeResponse space address d m).Sound (spaceContract space longest) fun _ => True := by
  have hbound := hb.longest_le
  apply Sound.bind
  refine sound_dmaRead (envelope_args hb hd rfl (by omega) (by omega)) (le_refl 2)
    fun _ _ => ?_
  rw [if_neg hpos]
  apply Sound.bind
  refine sound_dmaWrite (envelope_args hb hd (by omega) (by omega) (by omega)) (by omega)
    fun _ => ?_
  refine sound_checkTransition (fun p hp => hp.response_pos)
    (fun p hp i hi => hp.responseDescriptor hi) nofun fun doInterrupt => ?_
  exact sound_releaseResponse hb haddress doInterrupt

theorem sound_postResponse {m : Message} (hpos : m.messageLength ≠ 0)
    (heven : m.messageLength % 2 = 0) (hle : m.messageLength ≤ longest) :
    (postResponse space m).Sound (spaceContract space longest) fun _ => True := by
  refine Sound.read fun p hp => ?_
  apply Sound.bind
  have haddress := hp.responseDescriptor hp.response_lt
  refine sound_dmaRead haddress (le_refl 4) fun r hr => ?_
  cases r with
  | none => exact (nofun : Crash.nullPointer ≠ .assertion)
  | some ws =>
    dsimp only
    split
    · rename_i hownership
      exact sound_writeResponse hb haddress (hr ws rfl hownership) hpos heven hle
    · exact (nofun : Crash.noRoom ≠ .assertion)

omit hb in
theorem sound_transferData {m : Message} (hm : MessageOk space longest m) :
    (transferData space m).Sound (spaceContract space longest) fun _ => True := by
  unfold transferData
  dsimp only
  split
  · rename_i hread
    obtain ⟨heven, hpos, hend⟩ := hm.data (.inl hread)
    exact Sound.bind (sound_dmaWrite ⟨heven, hpos, hend⟩ (le_refl _) fun _ => trivial)
  · split
    · rename_i hwrite
      obtain ⟨heven, hpos, hend⟩ := hm.data (.inr hwrite)
      exact Sound.bind (sound_dmaRead ⟨heven, hpos, hend⟩ (le_refl _) fun _ _ => trivial)
    · trivial

omit hb in
theorem ringOk_setOnline {p : Port} (hp : RingOk space p) (unit : ℕ) (online : Bool) :
    Guarantee space p (setOnline unit online p) := by
  unfold setOnline
  split
  · exact ⟨⟨hp.command_pos, hp.response_pos, hp.command_lt, hp.response_lt, hp.header_le,
      hp.end_le⟩, rfl, .inl rfl⟩
  · exact ⟨hp, rfl, .inl rfl⟩

omit hb in
theorem sound_execute {m : Message} (hm : MessageOk space longest m) :
    (execute space m).Sound (spaceContract space longest) fun _ => True := by
  unfold execute
  split
  · exact ⟨fun p hp => ringOk_setOnline hp m.unitNumber true, trivial⟩
  · split
    · exact ⟨fun p hp => ringOk_setOnline hp m.unitNumber false, trivial⟩
    · split
      · refine Sound.read fun p _ => ?_
        split
        · trivial
        · split
          · exact sound_transferData hm
          · trivial
      · trivial

theorem sound_serve {m : Message} (hm : MessageOk space longest m) :
    (serve space m).Sound (spaceContract space longest) fun _ => True :=
  Sound.seq (sound_execute hm) fun _ _ =>
    sound_postResponse hb hm.response_pos hm.response_even hm.response_le

/-- Header and rings are cleared word by word. -/
theorem sound_clearCommArea :
    (clearCommArea space).Sound (spaceContract space longest) fun _ => True := by
  refine Sound.read fun p hp => ?_
  have hspace := hb.space_le
  have hbase := hp.ringBase_le
  have hheader := hp.header_le
  have hend := hp.end_le
  unfold Port.commHeader at hheader
  refine Sound.seq (Sound.forEach fun i hi => ?_) fun _ _ => Sound.forEach fun i hi => ?_
  · have hi := List.mem_range.mp hi
    apply Sound.bind
    refine sound_dmaWrite ⟨rfl, by omega, ?_⟩ (le_refl 1) fun _ => trivial
    unfold sub32
    split at hheader <;> simp_all <;> omega
  · have hi := List.mem_range.mp hi
    apply Sound.bind
    exact sound_dmaWrite (hp.responseDescriptor hi) (le_refl 2) fun _ => trivial

end Programs

end QUniBone.UDA50
