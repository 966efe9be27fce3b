import QUniBone.M9312.Rom

/-!
# The sockets of the M9312

`plug_rom` in `m9312.cpp`: listings are plugged into the five ROM sockets, which are all installed
when the board is enabled.

* `Socket`, `plugRom`, `Sockets.plug`, `Sockets.install`: the code.
* `Holds`, `IsEmpty`, `Outcome`: what a socket shall hold after a call.
* `Call.Fine`: listings that are plugged, or begin at the address of the socket.
* `plugRom_fine`, `plugRom_not_fine`: one call.
* `sockets_exact_iff`: any sequence of calls, and the installation after it.
-/

namespace QUniBone.M9312

open QUnibusAdapter

/-! ## Model -/

inductive Socket
  | consemu
  | bootrom1
  | bootrom2
  | bootrom3
  | bootrom4
  deriving DecidableEq

namespace Socket

def wordcount : Socket → ℕ
  | consemu => 256
  | _ => 64

def base : Socket → UInt
  | consemu => 0o765000
  | bootrom1 => 0o773000
  | bootrom2 => 0o773200
  | bootrom3 => 0o773400
  | bootrom4 => 0o773600

/-- `rom_required_file_start_address` in the calls of `plug_rom` -/
def requiredFileStartAddress : Socket → UInt
  | consemu => 0o165000
  | _ => 0o173000

def all : List Socket := [consemu, bootrom1, bootrom2, bootrom3, bootrom4]

/-- The address of a cell in the IO page -/
def addr (k : Socket) (i : ℕ) : UInt := k.base + BitVec.ofNat 32 (2 * i)

end Socket

/-- Bits 12, 11, 10 are inverted. -/
def emptySocketDataValue : Word := 0o161777

abbrev Sockets := Socket → Rom

/-- After the constructor of `m9312_c` -/
def Sockets.init : Sockets := fun k =>
  Rom.fill ⟨k.base, k.wordcount, fun _ => 0, fun _ => none⟩ emptySocketDataValue

/-- A call of `plug_rom`, for a file path that may be NULL. What the file holds may change from call
to call. -/
structure Call where
  socket : Socket
  filepath : Option String
  load : String → Loading

/-- `plug_rom`: the file path afterwards, and the ROM -/
def plugRom (bus : AddrSpace) (load : String → Loading) (filepath : Option String) (r : Rom)
    (romRequiredFileStartAddress : UInt) : Option (Option String × Rom) :=
  match filepath with
  | none => some (none, r.fill emptySocketDataValue)
  | some path =>
    if path = "" then some (some path, r.fill emptySocketDataValue)
    -- - also means NO ROM
    else if path = "-" then some (some "", r.fill emptySocketDataValue)
    else
      (r.loadMacro11Listing (load path)).map fun l =>
        if !l.1 then (some "", l.2.fill emptySocketDataValue)
        else if l.2.baseaddress ≠ romRequiredFileStartAddress then
          (some "", l.2.fill emptySocketDataValue)
        else (some path, l.2.relocate bus r.baseaddress)

/-- A call for one of the sockets -/
def Sockets.plug (s : Sockets) (c : Call) : Option (Option String × Sockets) :=
  (plugRom unibus c.load c.filepath (s c.socket) c.socket.requiredFileStartAddress).map fun r =>
    (r.1, Function.update s c.socket r.2)

/-- The ROMs are installed one after another. -/
def Sockets.install {ι : Type} (len : UInt) (s : Sockets) (p : Page ι) : Option (Page ι) :=
  Socket.all.foldlM (fun p k => (s k).install unibus len p) p

/-! ## What a socket shall hold -/

/-- The words of a listing from its start on, and its labels moved with them -/
structure Holds (r : Rom) (k : Socket) (image : MemoryImage) (codelabels : CodelabelMap)
    (start : ℕ) : Prop where
  fits : image.Fits start k.wordcount
  cells : ∀ i < k.wordcount, r.cells i =
    if image.valid ((start + 2 * i) / 2) = true then image.getWord (start + 2 * i) else 0xffff
  codelabels : ∀ l, r.codelabels l = (codelabels l).map (· + (k.base - BitVec.ofNat 32 start))

structure IsEmpty (r : Rom) (k : Socket) : Prop where
  cells : ∀ i < k.wordcount, r.cells i = emptySocketDataValue
  codelabels : ∀ l, r.codelabels l = none

/-- What a call leaves, by the file path afterwards -/
inductive Outcome (c : Call) (r : Rom) : Option String → Prop
  | plugged {path : String} {image : MemoryImage} {codelabels : CodelabelMap} {start : ℕ} :
      c.filepath = some path → c.load path = .listing image codelabels →
      Holds r c.socket image codelabels start → Outcome c r (some path)
  | empty {path : Option String} : path.getD "" = "" → IsEmpty r c.socket → Outcome c r path

/-- The ROM is in its place. -/
def InPlace (r : Rom) (k : Socket) : Prop := r.baseaddress = k.base ∧ r.wordcount = k.wordcount

/-- All calls return, and leave what they shall. -/
def PluggedRight : List Call → Sockets → Sockets → Prop
  | [], s, s' => s' = s
  | c :: cs, s, s' => ∃ path s₁, s.plug c = some (path, s₁) ∧ InPlace (s₁ c.socket) c.socket ∧
      Outcome c (s₁ c.socket) path ∧ PluggedRight cs s₁ s'

def Loading.Fine (k : Socket) : Loading → Prop
  | .asserted => False
  | .unreadable => True
  | .listing image _ => image.Fits k.requiredFileStartAddress.toNat k.wordcount ∨
      image.Starts k.base.toNat

/-- If there is a file to load, it is a listing that can be plugged, or one that begins at the
address of the socket. -/
def Call.Fine (c : Call) : Prop :=
  ∀ path, c.filepath = some path → path ≠ "" → path ≠ "-" → (c.load path).Fine c.socket

/-! ## One call -/

theorem isEmpty_fill {r : Rom} {k : Socket} (h : r.wordcount = k.wordcount) :
    IsEmpty (r.fill emptySocketDataValue) k where
  cells i hi := by
    rw [Rom.fill, h]
    exact if_pos hi
  codelabels _ := rfl

theorem InPlace.fill {r : Rom} {k : Socket} (h : InPlace r k) (value : Word) :
    InPlace (r.fill value) k := h

theorem Socket.base_lt (k : Socket) : k.base.toNat < 0x3ffff := by
  cases k <;> decide

theorem Socket.required_lt (k : Socket) : k.requiredFileStartAddress.toNat < 0x3ffff := by
  cases k <;> decide

theorem Socket.base_ne_required (k : Socket) : k.base ≠ k.requiredFileStartAddress := by
  cases k <;> decide

/-- The ROM begins where the listing begins. -/
theorem ofNat_first_iff {image : MemoryImage} {a : UInt} (ha : a.toNat < 0x3ffff) :
    BitVec.ofNat 32 image.getAddrRange.1 = a ↔ image.Starts a.toNat := by
  rw [← MemoryImage.getAddrRange_first_iff ha, ← BitVec.toNat_inj, BitVec.toNat_ofNat,
    Nat.mod_eq_of_lt]
  have := MemoryImage.getAddrRange_first_le image
  omega

theorem relocate_eq {r : Rom} {k : Socket} (hwords : r.wordcount = k.wordcount) :
    r.relocate unibus k.base = { r with
      baseaddress := k.base
      codelabels := fun l => (r.codelabels l).map (· + (k.base - r.baseaddress)) } := by
  have hinside : ¬k.base + BitVec.ofNat 32 (2 * k.wordcount) > unibus.addrSpaceByteCount := by
    cases k <;> decide
  rw [Rom.relocate, hwords, if_neg hinside]

theorem inPlace_relocate {r : Rom} {k : Socket} (hwords : r.wordcount = k.wordcount) :
    InPlace (r.relocate unibus k.base) k := by
  rw [relocate_eq hwords]
  exact ⟨rfl, hwords⟩

/-- A listing that fits is plugged. -/
theorem holds_relocate {r : Rom} {k : Socket} {image : MemoryImage} (codelabels : CodelabelMap)
    (hwords : r.wordcount = k.wordcount)
    (hfits : image.Fits k.requiredFileStartAddress.toNat k.wordcount) :
    Holds (((r.atListing image codelabels).copyWords image).relocate unibus k.base) k image
      codelabels k.requiredFileStartAddress.toNat := by
  have hwords' : ((r.atListing image codelabels).copyWords image).wordcount = k.wordcount := by
    rw [Rom.copyWords_wordcount, Rom.atListing_wordcount, hwords]
  have hfirst := (ofNat_first_iff k.required_lt).mpr hfits.1
  rw [relocate_eq hwords']
  constructor
  case fits => exact hfits
  case cells =>
    intro i hi
    have haddr : ((r.atListing image codelabels).addr i).toNat =
        k.requiredFileStartAddress.toNat + 2 * i := by
      rw [Rom.addr, Rom.atListing_baseaddress, hfirst, BitVec.toNat_add, BitVec.toNat_ofNat]
      have hlt := k.required_lt
      have hcount : k.wordcount ≤ 256 := by cases k <;> decide
      omega
    have hi' : i < r.wordcount := by rw [hwords]; exact hi
    rw [Rom.copyWords_cells, Rom.atListing_wordcount, Rom.atListing_cells hi', haddr]
    simp only [hi', true_and]
  case codelabels =>
    intro l
    rw [Rom.copyWords_codelabels, Rom.atListing_codelabels, Rom.copyWords_baseaddress,
      Rom.atListing_baseaddress, hfirst, BitVec.ofNat_toNat, BitVec.setWidth_eq]

section Plug

variable {c : Call} {r : Rom}

/-- The socket is emptied. -/
theorem emptied (hr : InPlace r c.socket) {path : Option String} (hpath : path.getD "" = "") :
    InPlace (r.fill emptySocketDataValue) c.socket ∧
      Outcome c (r.fill emptySocketDataValue) path :=
  ⟨hr.fill _, .empty hpath (isEmpty_fill hr.2)⟩

theorem plugRom_load {path : String} (hempty : path ≠ "") (hdash : path ≠ "-") (bus : AddrSpace)
    (load : String → Loading) (r : Rom) (a : UInt) : plugRom bus load (some path) r a =
      (r.loadMacro11Listing (load path)).map fun l =>
        if !l.1 then (some "", l.2.fill emptySocketDataValue)
        else if l.2.baseaddress ≠ a then (some "", l.2.fill emptySocketDataValue)
        else (some path, l.2.relocate bus r.baseaddress) := by
  unfold plugRom
  dsimp only
  rw [if_neg hempty, if_neg hdash]

theorem plugRom_fine (hr : InPlace r c.socket) (hfine : c.Fine) :
    ∃ path r', plugRom unibus c.load c.filepath r c.socket.requiredFileStartAddress =
      some (path, r') ∧ InPlace r' c.socket ∧ Outcome c r' path := by
  cases hfile : c.filepath with
  | none => exact ⟨none, _, rfl, emptied hr rfl⟩
  | some path =>
    by_cases hempty : path = ""
    · subst hempty
      exact ⟨some "", _, rfl, emptied hr rfl⟩
    by_cases hdash : path = "-"
    · subst hdash
      exact ⟨some "", _, rfl, emptied hr rfl⟩
    have hload := hfine path hfile hempty hdash
    rw [plugRom_load hempty hdash]
    cases hl : c.load path with
    | asserted =>
      rw [hl] at hload
      exact absurd hload id
    | unreadable => exact ⟨some "", _, rfl, emptied (hr.fill 0xffff) rfl⟩
    | listing image codelabels =>
      rw [hl] at hload
      rcases hload with hfits | hstarts
      · -- the listing is plugged
        have hfits' : image.Fits c.socket.requiredFileStartAddress.toNat r.wordcount := by
          rw [hr.2]
          exact hfits
        have hbase : ((r.atListing image codelabels).copyWords image).baseaddress =
            c.socket.requiredFileStartAddress := by
          rw [Rom.copyWords_baseaddress, Rom.atListing_baseaddress]
          exact (ofNat_first_iff c.socket.required_lt).mpr hfits.1
        have hholds := holds_relocate codelabels hr.2 hfits
        have hwords : ((r.atListing image codelabels).copyWords image).wordcount =
            c.socket.wordcount := by
          rw [Rom.copyWords_wordcount, Rom.atListing_wordcount, hr.2]
        have hplace := inPlace_relocate hwords
        rw [Rom.loadMacro11Listing_fits c.socket.required_lt hfits', Option.map_some]
        simp only [Bool.not_true, Bool.false_eq_true, if_false, hbase, ne_eq, not_true_eq_false,
          hr.1]
        exact ⟨some path, _, rfl, hplace, .plugged hfile hl hholds⟩
      · -- the listing is refused, but the ROM has moved to its own address
        obtain ⟨ok, r', hr', hbase, hwords⟩ := r.loadMacro11Listing_base image codelabels
        rw [(ofNat_first_iff c.socket.base_lt).mpr hstarts] at hbase
        have hplace : InPlace r' c.socket := ⟨hbase, hwords.trans hr.2⟩
        refine ⟨some "", r'.fill emptySocketDataValue, ?_, emptied hplace rfl⟩
        rw [hr', Option.map_some, hbase, if_pos c.socket.base_ne_required, ite_self]

/-- Any other call leaves the ROM somewhere else. -/
theorem plugRom_not_fine (hr : InPlace r c.socket) (hfine : ¬c.Fine) {path : Option String}
    {r' : Rom} (h : plugRom unibus c.load c.filepath r c.socket.requiredFileStartAddress =
      some (path, r')) : ¬InPlace r' c.socket := by
  intro hplace
  apply hfine
  intro path' hfile hempty hdash
  rw [hfile, plugRom_load hempty hdash] at h
  cases hl : c.load path' with
  | asserted =>
    rw [hl] at h
    cases h
  | unreadable => trivial
  | listing image codelabels =>
    obtain ⟨ok, r₁, hr₁, hbase, hwords⟩ := r.loadMacro11Listing_base image codelabels
    rw [hl, hr₁, Option.map_some] at h
    -- the address stays that of the listing, if it is refused
    have hrefused : r'.baseaddress = r₁.baseaddress → (c.load path').Fine c.socket := by
      intro heq
      rw [hl]
      refine .inr ((ofNat_first_iff c.socket.base_lt).mp ?_)
      rw [← hbase, ← heq, hplace.1]
    rw [← hl]
    by_cases hok : ok = true
    · by_cases hstart : r₁.baseaddress = c.socket.requiredFileStartAddress
      · subst hok
        rw [hbase, ofNat_first_iff c.socket.required_lt] at hstart
        have hfits := Rom.fits_of_loadMacro11Listing c.socket.required_lt
          ((MemoryImage.getAddrRange_first_iff c.socket.required_lt).mpr hstart) hr₁
        rw [hl]
        rw [hr.2] at hfits
        exact .inl hfits
      · apply hrefused
        subst hok
        simp only [Bool.not_true, Bool.false_eq_true, if_false, ne_eq, hstart, not_false_eq_true,
          if_true] at h
        cases h
        rfl
    · apply hrefused
      rw [Bool.not_eq_true] at hok
      subst hok
      cases h
      rfl

end Plug

/-! ## Sequences of calls -/

theorem Sockets.init_inPlace (k : Socket) : InPlace (Sockets.init k) k := ⟨rfl, rfl⟩

theorem plug_inPlace {s s₁ : Sockets} (hs : ∀ k, InPlace (s k) k) {c : Call} {path : Option String}
    (h : s.plug c = some (path, s₁)) (hc : InPlace (s₁ c.socket) c.socket) (k : Socket) :
    InPlace (s₁ k) k := by
  unfold Sockets.plug at h
  obtain ⟨r, -, hr⟩ := Option.map_eq_some_iff.mp h
  obtain ⟨-, heq⟩ := Prod.mk.inj hr
  by_cases hk : k = c.socket
  · rw [hk]
    exact hc
  · rw [← heq, Function.update_of_ne hk]
    exact hs k

theorem PluggedRight.inPlace {calls : List Call} {s s' : Sockets} (hs : ∀ k, InPlace (s k) k)
    (h : PluggedRight calls s s') : ∀ k, InPlace (s' k) k := by
  induction calls generalizing s with
  | nil =>
    rw [h]
    exact hs
  | cons c cs ih =>
    obtain ⟨path, s₁, hplug, hplace, -, hrest⟩ := h
    exact ih (plug_inPlace hs hplug hplace) hrest

/-- All calls leave what they shall iff all of them are fine. -/
theorem pluggedRight_iff (calls : List Call) {s : Sockets} (hs : ∀ k, InPlace (s k) k) :
    (∃ s', PluggedRight calls s s') ↔ ∀ c ∈ calls, c.Fine := by
  induction calls generalizing s with
  | nil => exact ⟨fun _ c hc => absurd hc List.not_mem_nil, fun _ => ⟨s, rfl⟩⟩
  | cons c cs ih =>
    rw [List.forall_mem_cons]
    constructor
    · rintro ⟨s', path, s₁, hplug, hplace, -, hrest⟩
      refine ⟨?_, (ih (plug_inPlace hs hplug hplace)).mp ⟨s', hrest⟩⟩
      by_contra hfine
      unfold Sockets.plug at hplug
      obtain ⟨r, hr, heq⟩ := Option.map_eq_some_iff.mp hplug
      obtain ⟨-, heq⟩ := Prod.mk.inj heq
      rw [← heq, Function.update_self] at hplace
      exact plugRom_not_fine (hs c.socket) hfine hr hplace
    · intro ⟨hfine, hrest⟩
      obtain ⟨path, r, hr, hplace, houtcome⟩ := plugRom_fine (hs c.socket) hfine
      have hplug : s.plug c = some (path, Function.update s c.socket r) := by
        rw [Sockets.plug, hr, Option.map_some]
      have hself : Function.update s c.socket r c.socket = r := Function.update_self _ _ _
      have hplace' : InPlace (Function.update s c.socket r c.socket) c.socket := by
        rw [hself]
        exact hplace
      obtain ⟨s', hs'⟩ := (ih (plug_inPlace hs hplug hplace')).mpr hrest
      refine ⟨s', path, _, hplug, hplace', ?_, hs'⟩
      rw [hself]
      exact houtcome

/-! ## Addresses -/

theorem Socket.toNat_addr {k : Socket} {i : ℕ} (hi : i < k.wordcount) :
    (k.addr i).toNat = k.base.toNat + 2 * i ∧ k.base.toNat + 2 * k.wordcount ≤ 0o774000 := by
  have hend : k.base.toNat + 2 * k.wordcount ≤ 0o774000 := by cases k <;> decide
  rw [Socket.addr, BitVec.toNat_add, BitVec.toNat_ofNat]
  omega

theorem Socket.toNat_entry {k : Socket} {i : ℕ} (hi : i < k.wordcount) :
    (entry (k.addr i)).toNat = (k.base.toNat - 0o760000) / 2 + i := by
  obtain ⟨haddr, hend⟩ := Socket.toNat_addr hi
  have hstart : 0o765000 ≤ k.base.toNat := by cases k <;> decide
  rw [entry, BitVec.extractLsb'_toNat, haddr, Nat.shiftRight_eq_div_pow]
  omega

/-- No two cells are at the same word of the IO page. -/
theorem Socket.entry_inj {k k' : Socket} {i j : ℕ} (hi : i < k.wordcount) (hj : j < k'.wordcount)
    (h : entry (k.addr i) = entry (k'.addr j)) : k = k' ∧ i = j := by
  have hnat := congrArg BitVec.toNat h
  rw [Socket.toNat_entry hi, Socket.toNat_entry hj] at hnat
  cases k <;> cases k' <;> simp [Socket.base, Socket.wordcount] at hnat hi hj ⊢ <;> omega

theorem Socket.word_inj {k k' : Socket} {i j : ℕ} (hi : i < k.wordcount) (hj : j < k'.wordcount)
    (h : k.addr i >>> 1 = k'.addr j >>> 1) : k = k' ∧ i = j := by
  refine Socket.entry_inj hi hj (BitVec.eq_of_toNat_eq ?_)
  have hnat := congrArg BitVec.toNat h
  rw [BitVec.toNat_ushiftRight, BitVec.toNat_ushiftRight] at hnat
  rw [entry, entry, BitVec.extractLsb'_toNat, BitVec.extractLsb'_toNat, hnat]

theorem Socket.deposits {len : UInt} (hlen : unibus.addrSpaceByteCount / 2 ≤ len) {k : Socket}
    {i : ℕ} (hi : i < k.wordcount) : Rom.Deposits unibus len (k.addr i) := by
  obtain ⟨haddr, hend⟩ := Socket.toNat_addr hi
  have hstart : 0o765000 ≤ k.base.toNat := by cases k <;> decide
  have heven : k.base.toNat % 2 = 0 := by cases k <;> decide
  have hspace : unibus.addrSpaceByteCount.toNat = 0o1000000 := rfl
  have hpage : unibus.iopageStartAddr.toNat = 0o760000 := rfl
  have hlast : (unibus.addrSpaceByteCount - 2).toNat = 0o777776 := rfl
  constructor
  case romAddr =>
    refine ⟨BitVec.eq_of_toNat_eq ?_, ?_, ?_⟩
    · rw [BitVec.toNat_and]
      show (k.addr i).toNat &&& 1 = 0
      rw [Nat.and_one_is_mod]
      omega
    · rw [BitVec.le_def]
      omega
    · rw [BitVec.le_def]
      omega
  case lt =>
    rw [BitVec.lt_def]
    omega
  case le_len =>
    have hhalf : (unibus.addrSpaceByteCount / 2).toNat = 0o400000 := rfl
    rw [BitVec.le_def] at hlen ⊢
    rw [BitVec.toNat_udiv, show (2 : UInt).toNat = 2 from rfl]
    omega

/-! ## Installing -/

section Install

variable {ι : Type}

/-- No ROM is at the cells of a socket. -/
def NoRom (s : State ι) (k : Socket) : Prop :=
  ∀ i < k.wordcount, s.registerHandles (entry (k.addr i)) ≠ handleRom

/-- No device register is at the cells up to this one. -/
def FreeTo (s : State ι) (k : Socket) (i : ℕ) : Prop :=
  ∀ j ≤ i, s.registerHandles (entry (k.addr j)) = 0

theorem InPlace.addr {r : Rom} {k : Socket} (h : InPlace r k) (i : ℕ) : r.addr i = k.addr i := by
  rw [Rom.addr, h.1, Socket.addr]

theorem InPlace.freeTo_iff {r : Rom} {k : Socket} (h : InPlace r k) (s : State ι) (i : ℕ) :
    r.FreeTo s 0 i ↔ FreeTo s k i := by
  unfold Rom.FreeTo FreeTo
  simp only [h.addr, Nat.zero_le, true_implies]

theorem InPlace.installable {len : UInt} (hlen : unibus.addrSpaceByteCount / 2 ≤ len) {r : Rom}
    {k : Socket} (h : InPlace r k) {s : State ι} (hs : NoRom s k) :
    r.Installable unibus len 0 r.wordcount s := by
  rw [h.2]
  constructor
  case deposits =>
    intro j _ hj
    rw [h.addr]
    exact Socket.deposits hlen (by omega)
  case entry_ne =>
    intro j l _ hjl hl heq
    rw [h.addr, h.addr] at heq
    have := (Socket.entry_inj (by omega) (by omega) heq).2
    omega
  case word_ne =>
    intro j l _ hjl hl heq
    rw [h.addr, h.addr] at heq
    have := (Socket.word_inj (by omega) (by omega) heq).2
    omega
  case ne_rom =>
    intro j _ hj
    rw [h.addr]
    exact hs j (by omega)

/-- What the installation of some sockets leaves at the cells of a socket -/
structure SocketInstalled (r : Rom) (k : Socket) (p p' : Page ι) : Prop where
  rom : ∀ i < k.wordcount, FreeTo p.tables k i →
    p'.tables.registerHandles (entry (k.addr i)) = handleRom ∧ p'.ddrmem.getW (k.addr i) = r.cells i
  kept : ∀ i < k.wordcount, ¬FreeTo p.tables k i →
    p'.tables.registerHandles (entry (k.addr i)) = p.tables.registerHandles (entry (k.addr i))

/-- The cells of a socket are the same. -/
structure SocketKept (k : Socket) (p p' : Page ι) : Prop where
  cells : ∀ i < k.wordcount,
    p'.tables.registerHandles (entry (k.addr i)) = p.tables.registerHandles (entry (k.addr i))
  words : ∀ i < k.wordcount, p'.ddrmem.getW (k.addr i) = p.ddrmem.getW (k.addr i)

theorem SocketKept.refl (k : Socket) (p : Page ι) : SocketKept k p p :=
  ⟨fun _ _ => rfl, fun _ _ => rfl⟩

theorem SocketKept.trans {k : Socket} {p p₁ p' : Page ι} (h : SocketKept k p p₁)
    (h' : SocketKept k p₁ p') : SocketKept k p p' :=
  ⟨fun i hi => (h'.cells i hi).trans (h.cells i hi),
    fun i hi => (h'.words i hi).trans (h.words i hi)⟩

theorem SocketKept.freeTo_iff {k : Socket} {p p' : Page ι} (h : SocketKept k p p') {i : ℕ}
    (hi : i < k.wordcount) : FreeTo p'.tables k i ↔ FreeTo p.tables k i := by
  refine forall₂_congr fun j hj => ?_
  rw [h.cells j (by omega)]

/-- One ROM, in its socket and in the others -/
theorem socketInstalled_of_installed {r : Rom} {k : Socket} {p p' : Page ι} (hr : InPlace r k)
    (h : r.Installed 0 r.wordcount p p') :
    SocketInstalled r k p p' ∧ ∀ k', k' ≠ k → SocketKept k' p p' := by
  rw [hr.2] at h
  refine ⟨⟨fun i hi hfree => ?_, fun i hi hnot => ?_⟩,
    fun k' hk => ⟨fun i hi => ?_, fun i hi => ?_⟩⟩
  · rw [← hr.addr]
    exact h.rom i (Nat.zero_le i) (by omega) ((hr.freeTo_iff p.tables i).mpr hfree)
  · rw [← hr.addr]
    exact h.kept i (Nat.zero_le i) (by omega) fun hfree =>
      hnot ((hr.freeTo_iff p.tables i).mp hfree)
  · refine h.cells _ fun j _ hj heq => hk ?_
    rw [hr.addr] at heq
    exact (Socket.entry_inj hi (by omega) heq).1
  · refine h.words _ fun j _ hj heq => hk ?_
    rw [hr.addr] at heq
    exact (Socket.word_inj hi (by omega) heq).1

/-- All sockets, one after another -/
theorem install_spec {len : UInt} (hlen : unibus.addrSpaceByteCount / 2 ≤ len) {s : Sockets}
    (hs : ∀ k, InPlace (s k) k) {ks : List Socket} (hnodup : ks.Nodup) {p : Page ι}
    (hrom : ∀ k ∈ ks, NoRom p.tables k) :
    ∃ p', ks.foldlM (fun p k => (s k).install unibus len p) p = some p' ∧
      (∀ k ∈ ks, SocketInstalled (s k) k p p') ∧ ∀ k, k ∉ ks → SocketKept k p p' := by
  induction ks generalizing p with
  | nil =>
    exact ⟨p, rfl, fun k hk => absurd hk List.not_mem_nil, fun k _ => SocketKept.refl k p⟩
  | cons k ks ih =>
    obtain ⟨hk, hnodup⟩ := List.nodup_cons.mp hnodup
    obtain ⟨p₁, hp₁, hinstalled⟩ :=
      Rom.install_spec ((hs k).installable hlen (hrom k List.mem_cons_self))
    obtain ⟨hself, hothers⟩ := socketInstalled_of_installed (hs k) hinstalled
    have hne : ∀ k' ∈ ks, k' ≠ k := fun k' hk' heq => hk (heq ▸ hk')
    obtain ⟨p', hp', hall, hkept⟩ := ih hnodup (p := p₁) fun k' hk' i hi => by
      rw [(hothers k' (hne k' hk')).cells i hi]
      exact hrom k' (List.mem_cons_of_mem k hk') i hi
    refine ⟨p', ?_, ?_, ?_⟩
    · rw [List.foldlM_cons, hp₁]
      exact hp'
    · intro k' hk'
      rcases List.mem_cons.mp hk' with heq | hk'
      · -- the sockets behind leave this one alone
        subst heq
        have hkept := hkept k' hk
        exact ⟨fun i hi hfree => ⟨(hkept.cells i hi).trans (hself.rom i hi hfree).1,
            (hkept.words i hi).trans (hself.rom i hi hfree).2⟩,
          fun i hi hnot => (hkept.cells i hi).trans (hself.kept i hi hnot)⟩
      · have hfirst := hothers k' (hne k' hk')
        have hlast := hall k' hk'
        refine ⟨fun i hi hfree => hlast.rom i hi ((hfirst.freeTo_iff hi).mpr hfree),
          fun i hi hnot => ?_⟩
        have hnot' : ¬FreeTo p₁.tables k' i := fun hfree => hnot ((hfirst.freeTo_iff hi).mp hfree)
        exact (hlast.kept i hi hnot').trans (hfirst.cells i hi)
    · intro k' hk'
      rw [List.mem_cons, not_or] at hk'
      exact (hothers k' hk'.1).trans (hkept k' hk'.2)

end Install

/-! ## What is read -/

/-- The PRU works on these tables and this RAM. -/
def emulation {ι : Type} (e : Emulation) (p : Page ι) : Emulation :=
  { e with
    pages := { e.pages with
      registerHandles := p.tables.registerHandles
      registers := p.tables.registers }
    ddrmem := p.ddrmem }

section Read

variable {ι : Type} {d : DdrmemC} {e : Emulation} {k : Socket} {i : ℕ}

/-- The cells of the sockets are in the IO page, where no memory is emulated. -/
theorem read_eq (hagree : Agree unibus d e.pages)
    (hstart : e.pages.iopageStartAddr = unibus.iopageStartAddr) (hi : i < k.wordcount)
    (p : Page ι) :
    (p.tables.registerHandles (entry (k.addr i)) = handleRom →
      (PruU.emulatedAddrRead (emulation e p) (k.addr i)).1 = some (p.ddrmem.getW (k.addr i))) ∧
    (p.tables.registerHandles (entry (k.addr i)) = 0 →
      (PruU.emulatedAddrRead (emulation e p) (k.addr i)).1 = none) := by
  have hpage : unibus.iopageStartAddr ≤ k.addr i := by
    obtain ⟨haddr, hend⟩ := Socket.toNat_addr hi
    have hbase : 0o765000 ≤ k.base.toNat := by cases k <;> decide
    have hstart : unibus.iopageStartAddr.toNat = 0o760000 := rfl
    rw [BitVec.le_def]
    omega
  have hmemory : (emulation e p).isMemory (k.addr i) = false := by
    rw [← Bool.not_eq_true]
    intro hmem
    exact absurd (hagree.lt_iopage (by decide) hmem) (BitVec.not_lt.mpr hpage)
  have hiopage : PruU.inIopage (emulation e p) (k.addr i) = true := by
    rw [← hstart] at hpage
    exact decide_eq_true hpage
  have hhandle : (emulation e p).pages.registerHandles (entry (k.addr i)) =
      p.tables.registerHandles (entry (k.addr i)) := rfl
  unfold PruU.emulatedAddrRead Emulation.addrRead
  simp only [hmemory, hiopage, hhandle, Bool.false_eq_true, if_false, if_true]
  constructor
  · intro h
    rw [h, if_neg (by decide), if_pos rfl]
    rfl
  · intro h
    rw [h, if_pos rfl]
    rfl

end Read

/-- A device register is at the cell. -/
def Claimed {ι : Type} (s : State ι) (k : Socket) (i : ℕ) : Prop :=
  (s.registerHandles (entry (k.addr i))).named = true

theorem handle_eq_zero {ι : Type} {s : State ι} {k : Socket} {i : ℕ} (hrom : NoRom s k)
    (hi : i < k.wordcount) (h : ¬Claimed s k i) : s.registerHandles (entry (k.addr i)) = 0 := by
  unfold Claimed Handle.named at h
  rw [Bool.and_eq_true, bne_iff_ne, bne_iff_ne, not_and_not_right] at h
  by_contra hne
  exact hrom i hi (not_not.mp fun hnot => hnot (h hne))

/-- Every call leaves what it shall, and the ROMs are installed with just these words, iff every
call is fine, and behind a device register there are only device registers in a socket. -/
theorem sockets_exact_iff {ι : Type} {d : DdrmemC} {e : Emulation} {p : Page ι} {len : UInt}
    (hagree : Agree unibus d e.pages)
    (hstart : e.pages.iopageStartAddr = unibus.iopageStartAddr)
    (hlen : unibus.addrSpaceByteCount / 2 ≤ len) (hrom : ∀ k, NoRom p.tables k)
    (calls : List Call) :
    (∃ s p', PluggedRight calls Sockets.init s ∧ s.install len p = some p' ∧
      ∀ k, ∀ i < k.wordcount, ¬Claimed p.tables k i →
        (PruU.emulatedAddrRead (emulation e p') (k.addr i)).1 = some ((s k).cells i)) ↔
    (∀ c ∈ calls, c.Fine) ∧
      ∀ k i j, i ≤ j → j < k.wordcount → Claimed p.tables k i → Claimed p.tables k j := by
  have hnodup : Socket.all.Nodup := by decide
  have hall : ∀ k, k ∈ Socket.all := fun k => by cases k <;> decide
  rw [← pluggedRight_iff calls Sockets.init_inPlace]
  constructor
  · rintro ⟨s, p', hplugged, hinstall, hread⟩
    refine ⟨⟨s, hplugged⟩, fun k i j hij hj hclaimed => ?_⟩
    by_contra hnot
    -- the cell behind the device register is left free
    obtain ⟨p₁, hp₁, hinstalled, -⟩ :=
      install_spec hlen (hplugged.inPlace Sockets.init_inPlace) hnodup fun k _ => hrom k
    rw [Sockets.install, hp₁] at hinstall
    cases hinstall
    have hzero := handle_eq_zero (hrom k) hj hnot
    have hkept := (hinstalled k (hall k)).kept j hj fun hfree => by
      rw [Claimed, hfree i hij] at hclaimed
      cases hclaimed
    have hnone := (read_eq hagree hstart hj p').2 (hkept.trans hzero)
    rw [hread k j hj hnot] at hnone
    cases hnone
  · rintro ⟨⟨s, hplugged⟩, hsuffix⟩
    obtain ⟨p', hp', hinstalled, -⟩ :=
      install_spec hlen (hplugged.inPlace Sockets.init_inPlace) hnodup fun k _ => hrom k
    refine ⟨s, p', hplugged, hp', fun k i hi hnot => ?_⟩
    have hfree : FreeTo p.tables k i := fun j hj =>
      handle_eq_zero (hrom k) (by omega) fun hclaimed => hnot (hsuffix k j i hj hi hclaimed)
    obtain ⟨hhandle, hword⟩ := (hinstalled k (hall k)).rom i hi hfree
    rw [(read_eq hagree hstart hi p').1 hhandle, ← hword]

/-- No memory is emulated. -/
def idleEmulation : Emulation where
  pages := ⟨0, 0, unibus.iopageStartAddr, fun _ => 0, fun _ => default⟩
  ddrmem := fun _ => 0
  deviceregister := default

/-- Nothing is plugged into the IO page. -/
def emptyPage : Page Unit where
  tables :=
    { device := fun _ => ⟨0, 0, 0, fun _ => ⟨0, 0, false, false, 0, 0⟩, false⟩
      devices := fun _ => none
      registerByHandle := fun _ => none
      registeredCpu := none
      registerHandles := fun _ => 0
      registers := fun _ => default
      emulateCpu := false }
  ddrmem := fun _ => 0

/-- A listing of one word at 0173000 -/
def oneWord : Loading := .listing (MemoryImage.init.putWord 0o173000 0o5000) fun _ => none

theorem oneWord_fine (k : Socket) (hk : k ≠ .consemu) : oneWord.Fine k := by
  have hvalid : ∀ i, (MemoryImage.init.putWord 0o173000 0o5000).valid i = true →
      i = 0o173000 / 2 := by
    intro i hi
    by_contra hne
    have hkept : (MemoryImage.init.putWord 0o173000 0o5000).valid i = MemoryImage.init.valid i :=
      Function.update_of_ne hne _ _
    rw [hkept] at hi
    cases hi
  have hstart : k.requiredFileStartAddress.toNat = 0o173000 := by
    cases k with
    | consemu => exact absurd rfl hk
    | bootrom1 => rfl
    | bootrom2 => rfl
    | bootrom3 => rfl
    | bootrom4 => rfl
  have hpos : 0 < k.wordcount := by cases k <;> decide
  left
  rw [hstart]
  refine ⟨⟨by decide, by decide, by decide, fun i _ hi => ?_⟩, fun i _ hi => ?_⟩
  · rw [hvalid i hi]
  · rw [hvalid i hi]
    omega

theorem sockets_exact_bootrom2 : ∃ s p', PluggedRight
    [⟨.bootrom2, some "boot.lst", fun _ => oneWord⟩] Sockets.init s ∧
      s.install 0x800000 emptyPage = some p' ∧
      ∀ k, ∀ i < k.wordcount, ¬Claimed emptyPage.tables k i →
        (PruU.emulatedAddrRead (emulation idleEmulation p') (k.addr i)).1 =
          some ((s k).cells i) := by
  have hagree : Agree unibus ⟨false, 0, 0, 0⟩ idleEmulation.pages := .disabled rfl rfl
  have hrom : ∀ k, NoRom emptyPage.tables k := fun k i _ => show (0 : Handle) ≠ handleRom by decide
  refine (sockets_exact_iff hagree rfl (by decide) hrom _).mpr ⟨?_, fun k i j _ _ h => ?_⟩
  · intro c hc path _ _ _
    rw [List.mem_singleton] at hc
    subst hc
    exact oneWord_fine .bootrom2 (by decide)
  · cases h

/-- A listing that begins in the wrong place takes the ROM there. -/
theorem wrong_start_moves_rom : ¬∃ s, PluggedRight
    [⟨.consemu, some "boot.lst", fun _ => oneWord⟩] Sockets.init s := by
  rw [pluggedRight_iff _ Sockets.init_inPlace]
  intro h
  have hfine := h _ (List.mem_singleton_self _) "boot.lst" rfl (by decide) (by decide)
  rcases hfine with hfits | hstarts
  · exact absurd hfits.1.valid (by decide)
  · exact absurd hstarts.valid (by decide)

end QUniBone.M9312
