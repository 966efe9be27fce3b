import QUniBone.Mscp.DiskMoves

/-!
# DoDiskTransfer compared with the reference

* `erase_ok`, `write_ok`, `read_ok`, `compareHostData_ok`: what a transfer that meets the
  reference does.
* `meets_iff`: the comparison.
-/

namespace QUniBone.MscpDisk

open Disk Storage

/-! ## A transfer that cannot be done

Data are found with which the transfer does something else than the reference. -/

section Probes

variable {b : Bus} {size : ℕ} {d : Drive} {q : Request}

/-- An image of `size` bytes, with the same word everywhere in memory, and an empty RCT -/
def probe (size : ℕ) (image : Bytes) (word : BusWord) : Contents where
  image :=
    { get := fun i => if i < size then image i else 0
      size := size
      get_of_size_le := fun _ h => if_neg (Nat.not_lt.mpr h) }
  rct := fun _ => 0
  memory := fun _ => word

theorem blockCount_of_table {i : DriveInfo} (h : i ∈ driveTable) : i.blockCount < 2 ^ 22 := by
  revert i
  decide

/-- A drive with so many blocks has an image of that size. -/
theorem image_holds (hdata : q.InData d size) (hlarge : 2 ^ 23 ≤ q.lbn.toNat) :
    q.lbn.toNat * blockSize + blockSize ≤ size := by
  have hlt : q.lbn.toNat < (d.blockCount size).toNat := hdata
  unfold Drive.blockCount at hlt
  split at hlt
  · rw [BitVec.toNat_ofNat] at hlt
    unfold blockSize at *
    omega
  · have htable := blockCount_of_table d.mem_driveTable
    rw [BitVec.toNat_ofNat] at hlt
    omega

/-- What the transfer should do, whatever the data are. -/
def TransferMeets (q : Request) (b : Bus) (d : Drive) (size : ℕ) : Prop :=
  ∀ x : Contents, x.image.size = size → ∃ r y, q.transfer b d x = some (r, y) ∧
    (r.status, y.data) = q.referenceTransfer b d size x.data

theorem TransferMeets.ne_none (h : TransferMeets q b d size) {x : Contents}
    (hsize : x.image.size = size) : q.transfer b d x ≠ none := by
  obtain ⟨r, y, hy, _⟩ := h x hsize
  simp [hy]

theorem store_of_readonly {x : Contents} (hdata : q.InData d x.image.size)
    (hreadonly : d.imageIsReadonly = true) (buffer : Bytes) : q.store d buffer x = none := by
  rw [store_inData hdata, write_of_readonly hreadonly]

/-- With a position that is too large the first byte on the disk stays what it was. -/
theorem store_wrong {x y : Contents} (hdata : q.InData d x.image.size)
    (hlarge : 2 ^ 23 ≤ q.lbn.toNat) {buffer : Bytes} (h : q.store d buffer x = some y) :
    y.data.image (q.lbn.toNat * blockSize) = x.image.get (q.lbn.toNat * blockSize) := by
  have hposition := position_add_le hlarge
  have hcount := q.byteCount.isLt
  rw [store_inData hdata] at h
  cases hreadonly : d.imageIsReadonly with
  | true =>
    rw [write_of_readonly hreadonly] at h
    cases h
  | false =>
    obtain ⟨z, hz, hwritten⟩ := write_data hreadonly q.lbn q.byteCount.toNat buffer x
    obtain rfl := Option.some.inj (h.symm.trans hz)
    rw [hwritten]
    show overwrite _ _ _ _ _ = _
    refine if_neg fun hin => ?_
    have hround : (q.byteCount.toNat + blockSize - 1) / blockSize * blockSize ≤ 2 ^ 32 := by
      show (q.byteCount.toNat + 512 - 1) / 512 * 512 ≤ 2 ^ 32
      omega
    omega

/-- The reference writes it. -/
theorem putBytes_first {x : Data} (hdata : q.InData d size) (hcount : q.byteCount.toNat ≠ 0)
    (bytes : Bytes) :
    (q.putBytes d size bytes x).image (q.lbn.toNat * blockSize) = bytes 0 := by
  have hround : q.byteCount.toNat ≤
      (q.byteCount.toNat + blockSize - 1) / blockSize * blockSize := by
    show q.byteCount.toNat ≤ (q.byteCount.toNat + 512 - 1) / 512 * 512
    omega
  unfold Request.putBytes
  rw [if_pos hdata]
  show overwrite _ _ _ _ _ = _
  unfold overwrite
  rw [if_pos (by omega), if_pos (by omega), Nat.sub_self]

/-- ERASE -/
theorem erase_ok (hmeets : TransferMeets q b d size) (hopcode : q.opcode = .erase) :
    q.TransferOk b d size := by
  have htransfer (x : Contents) : q.transfer b d x = q.eraseData d x := by
    unfold Request.transfer
    rw [hopcode]
  unfold Request.TransferOk
  rw [hopcode]
  refine ⟨fun hdata => ?_, ?_⟩
  · rw [← Bool.not_eq_true]
    intro hreadonly
    have hne := hmeets.ne_none (x := probe size (fun _ => 0) 0) rfl
    rw [htransfer, Request.eraseData, store_of_readonly hdata hreadonly] at hne
    exact hne rfl
  · by_contra hnot
    rw [not_or] at hnot
    obtain ⟨hcount, hposition⟩ := hnot
    rw [Request.PositionOk, Classical.not_imp, Nat.not_lt] at hposition
    obtain ⟨hdata, hlarge⟩ := hposition
    -- the image is full of ones
    let x := probe size (fun _ => 1) 0
    have himage := image_holds hdata hlarge
    obtain ⟨r, y, hy, hresult⟩ := hmeets x rfl
    rw [htransfer, Request.eraseData] at hy
    obtain ⟨z, hz, hend⟩ := Option.bind_eq_some_iff.mp hy
    obtain ⟨-, rfl⟩ := Prod.mk.inj (Option.some.inj hend)
    have hwrong := store_wrong (x := x) hdata hlarge hz
    unfold Request.referenceTransfer at hresult
    rw [hopcode] at hresult
    have hright : z.data.image (q.lbn.toNat * blockSize) = 0 := by
      rw [(Prod.mk.inj hresult).2]
      exact putBytes_first hdata hcount _
    rw [hright] at hwrong
    have hone : x.image.get (q.lbn.toNat * blockSize) = 1 := by
      refine if_pos ?_
      unfold blockSize at *
      omega
    rw [hone] at hwrong
    exact absurd hwrong (by decide)

/-- WRITE -/
theorem write_ok (hmeets : TransferMeets q b d size) (hopcode : q.opcode = .write) :
    q.TransferOk b d size := by
  have htransfer (x : Contents) : q.transfer b d x = q.writeData b d x := by
    unfold Request.transfer
    rw [hopcode]
  unfold Request.TransferOk
  rw [hopcode]
  have hok : q.HostOk b := by
    by_contra hnot
    have hne := hmeets.ne_none (x := probe size (fun _ => 0) 0) rfl
    rw [htransfer, Request.writeData, dmaRead_of_not_hostOk hnot] at hne
    exact hne rfl
  have hread (x : Contents) (hall : q.hostAnswers b = q.hostWords) :
      q.writeData b d x = (q.store d (hostByte x.memory q.address) x).bind Request.succeed := by
    rw [Request.writeData, dmaRead_of_hostOk hok, if_pos hall]
    rfl
  refine ⟨hok, fun hall => ⟨fun hdata => ?_, fun hdata => ?_⟩⟩
  · rw [← Bool.not_eq_true]
    intro hreadonly
    have hne := hmeets.ne_none (x := probe size (fun _ => 0) 0) rfl
    rw [htransfer, hread _ hall, store_of_readonly hdata hreadonly] at hne
    exact hne rfl
  · by_contra hlarge
    rw [Nat.not_lt] at hlarge
    -- memory is full of ones
    let x := probe size (fun _ => 0) 0xffff
    obtain ⟨r, y, hy, hresult⟩ := hmeets x rfl
    rw [htransfer, hread _ hall] at hy
    obtain ⟨z, hz, hend⟩ := Option.bind_eq_some_iff.mp hy
    obtain ⟨-, rfl⟩ := Prod.mk.inj (Option.some.inj hend)
    have hwrong := store_wrong (x := x) hdata hlarge hz
    unfold Request.referenceTransfer at hresult
    simp only [hopcode, if_pos hall] at hresult
    have hright : z.data.image (q.lbn.toNat * blockSize) = hostByte x.memory q.address 0 := by
      rw [(Prod.mk.inj hresult).2]
      exact putBytes_first hdata hok.2.1 _
    have hzero : x.image.get (q.lbn.toNat * blockSize) = 0 := ite_self _
    have hones : hostByte x.memory q.address 0 = 0xff := by
      show byteOf 0xffff 0 = 0xff
      decide
    rw [hright, hzero, hones] at hwrong
    exact absurd hwrong (by decide)

/-- The first word of a transfer is not overwritten by the others. -/
theorem dato_first (memory : ℕ → BusWord) (address : ℕ) (buffer : Buffer) (n : ℕ) :
    dato memory address buffer (n + 1) address = buffer 0 := by
  induction n with
  | zero => exact Function.update_self ..
  | succ n ih =>
    have hne : address ≠ address + 2 * (n + 1) := by omega
    unfold dato
    rw [Function.update_of_ne hne, ih]

theorem answered_pos {answers : ℕ → Bool} {address : ℕ} (h : answers address = true) (n : ℕ) :
    0 < answered answers address (n + 1) := by
  induction n with
  | zero => simp [answered, h]
  | succ n ih =>
    unfold answered
    split <;> omega

/-- READ -/
theorem read_ok (hmeets : TransferMeets q b d size) (hopcode : q.opcode = .read) :
    q.TransferOk b d size := by
  have htransfer (x : Contents) : q.transfer b d x = q.readData b d x := by
    unfold Request.transfer
    rw [hopcode]
  unfold Request.TransferOk
  rw [hopcode]
  have hok : q.HostOk b := by
    by_contra hnot
    have hne := hmeets.ne_none (x := probe size (fun _ => 0) 0) rfl
    rw [htransfer, Request.readData] at hne
    cases hfetch : q.fetch d (probe size (fun _ => 0) 0) with
    | none =>
      rw [hfetch] at hne
      exact hne rfl
    | some buffer =>
      rw [hfetch, Option.bind_some, dmaWrite_of_not_hostOk hnot] at hne
      exact hne rfl
  refine ⟨hok, ?_⟩
  by_contra hnot
  rw [not_or, Bool.not_eq_false, Request.PositionOk, Classical.not_imp, Nat.not_lt] at hnot
  obtain ⟨hanswers, hdata, hlarge⟩ := hnot
  -- ones from the first byte of the transfer on
  let x := probe size (fun i => if q.lbn.toNat * blockSize ≤ i then 1 else 0) 0
  have himage := image_holds hdata hlarge
  have hposition := position_add_le hlarge
  have hdata' : q.InData d x.image.size := hdata
  obtain ⟨n, hn⟩ : ∃ n, q.hostAnswers b = n + 1 := by
    have hwords : q.hostWords = q.hostWords - 1 + 1 := by
      have hcount := hok.2.1
      unfold Request.hostWords
      omega
    have hpos : 0 < q.hostAnswers b := by
      unfold Request.hostAnswers
      rw [hwords]
      exact answered_pos hanswers _
    exact ⟨q.hostAnswers b - 1, by omega⟩
  obtain ⟨r, y, hy, hresult⟩ := hmeets x rfl
  rw [htransfer, Request.readData, fetch_inData hdata', imageRead, if_neg hok.2.1, Option.bind_some,
    dmaWrite_of_hostOk hok, Option.bind_some, hn] at hy
  unfold Request.referenceTransfer at hresult
  simp only [hopcode] at hresult
  have hright : y.data.memory q.address = wordOf 1 1 := by
    have hone (i : ℕ) (hi : i < blockSize) : q.diskByte d size x.data i = 1 := by
      unfold Request.diskByte
      rw [if_pos hdata]
      show (if _ < size then _ else _) = _
      rw [if_pos (by omega), if_pos (by omega)]
    rw [(Prod.mk.inj hresult).2, putHost_of_hostOk hok, hn]
    show dato _ _ _ _ _ = _
    rw [dato_first, hone _ (by decide), hone _ (by decide)]
  have hwrong : y.data.memory q.address = wordOf 0 0 := by
    have hzero (i : ℕ) (hi : i < blockSize) :
        x.image.get (Drive.position q.lbn + i) = 0 := by
      show (if _ < size then _ else _) = _
      unfold blockSize at *
      rw [if_pos (by omega), if_neg (by omega)]
    have hmemory : y.memory = dato x.memory q.address (fun i =>
        wordOf (x.image.get (Drive.position q.lbn + 2 * i))
          (x.image.get (Drive.position q.lbn + (2 * i + 1)))) (n + 1) := by
      split at hy
      · obtain ⟨-, rfl⟩ := Prod.mk.inj (Option.some.inj hy)
        rfl
      · obtain ⟨-, rfl⟩ := Prod.mk.inj (Option.some.inj hy)
        rfl
    show y.memory _ = _
    rw [hmemory, dato_first, hzero _ (by decide), hzero _ (by decide)]
  rw [hright] at hwrong
  exact absurd hwrong (by decide)

/-- COMPARE HOST DATA -/
theorem compareHostData_ok (hfits : q.Fits d size) (hmeets : TransferMeets q b d size)
    (hopcode : q.opcode = .compareHostData) : q.TransferOk b d size := by
  have htransfer (x : Contents) : q.transfer b d x = q.compareHostData b d x := by
    unfold Request.transfer
    rw [hopcode]
  unfold Request.TransferOk
  rw [hopcode]
  -- zeros everywhere
  let x := probe size (fun _ => 0) 0
  have hok : q.HostOk b := by
    by_contra hnot
    have hne := hmeets.ne_none (x := x) rfl
    rw [htransfer, Request.compareHostData] at hne
    cases hfetch : q.fetch d x with
    | none =>
      rw [hfetch] at hne
      exact hne rfl
    | some buffer =>
      rw [hfetch, Option.bind_some, dmaRead_of_not_hostOk hnot] at hne
      exact hne rfl
  refine ⟨hok, fun hall => ?_⟩
  have hfits' : q.Fits d x.image.size := hfits
  have hzero (i : ℕ) : x.image.get i = 0 := ite_self _
  have hhost (i : ℕ) : hostByte x.memory q.address i = 0 := by
    show byteOf 0 i = 0
    unfold byteOf
    split <;> decide
  have hfetch : ∃ buffer, q.fetch d x = some buffer ∧ ∀ i, buffer i = 0 := by
    by_cases hdata : q.InData d x.image.size
    · refine ⟨_, ?_, fun i => hzero (Drive.position q.lbn + i)⟩
      rw [fetch_inData hdata, imageRead, if_neg hok.2.1]
    · refine ⟨_, fetch_rct hfits' hdata, fun i => ?_⟩
      unfold Request.diskByte
      rw [if_neg hdata]
      rfl
  obtain ⟨buffer, hbuffer, hbytes⟩ := hfetch
  obtain ⟨r, y, hy, hresult⟩ := hmeets x rfl
  have hsame : ∀ i < q.byteCount.toNat, buffer i = hostByte x.memory q.address i :=
    fun i _ => by rw [hbytes, hhost]
  rw [htransfer, Request.compareHostData, hbuffer, Option.bind_some, dmaRead_of_hostOk hok,
    if_pos hall, Option.bind_some] at hy
  dsimp only at hy
  rw [if_pos hsame] at hy
  obtain ⟨rfl, rfl⟩ := Prod.mk.inj (Option.some.inj hy)
  have hequal : ∀ i < q.byteCount.toNat,
      q.diskByte d size x.data i = hostByte x.data.memory q.address i := by
    intro i _
    show _ = hostByte x.memory q.address i
    rw [hhost]
    unfold Request.diskByte
    split
    · exact hzero _
    · rfl
  unfold Request.referenceTransfer at hresult
  simp only [hopcode] at hresult
  rw [if_pos hall, if_pos hequal] at hresult
  cases (Prod.mk.inj hresult).1

end Probes

/-! ## The comparison -/

section Comparison

variable {b : Bus} {size : ℕ} {d : Drive} {q : Request}

theorem doDiskTransfer_of_accepts {x : Contents} (hopen : d.imageIsOpen = true)
    (honline : d.online = true) (h : q.Accepts d x.image.size) :
    q.doDiskTransfer b (some d) x = q.transfer b d x := by
  unfold Request.doDiskTransfer
  dsimp only
  rw [if_neg (by simp [hopen]), if_neg (by simp [honline]), if_neg (BitVec.not_le.mpr h.1),
    if_neg (BitVec.not_lt.mpr h.2.1), if_neg fun hrct => hrct.2 (h.2.2 hrct.1)]

theorem doDiskTransfer_of_not_accepts {x : Contents} (hopen : d.imageIsOpen = true)
    (honline : d.online = true) (h : ¬q.Accepts d x.image.size) :
    ∃ subcode, q.doDiskTransfer b (some d) x = q.respond .invalidCommand subcode x := by
  unfold Request.doDiskTransfer
  dsimp only
  rw [if_neg (by simp [hopen]), if_neg (by simp [honline])]
  split
  case isTrue => exact ⟨_, rfl⟩
  case isFalse hlbn =>
    split
    case isTrue => exact ⟨_, rfl⟩
    case isFalse hcount =>
      split
      case isTrue => exact ⟨_, rfl⟩
      case isFalse hrct =>
        refine absurd ⟨BitVec.not_le.mp hlbn, BitVec.not_lt.mp hcount, fun hle => ?_⟩ h
        exact not_not.mp fun hne => hrct ⟨hle, hne⟩

theorem referenceTransfer_accepts (x : Data) :
    (q.referenceTransfer b d size x).1 ≠ .invalidCommand := by
  unfold Request.referenceTransfer
  cases q.opcode with
  | access | erase => exact Status.noConfusion
  | compareHostData =>
    dsimp only
    split
    · split <;> exact Status.noConfusion
    · exact Status.noConfusion
  | read | write =>
    dsimp only
    split <;> exact Status.noConfusion

/-- Once the checks are passed the command is not an invalid one. -/
theorem transfer_accepts {x y : Contents} {r : Response} (h : q.transfer b d x = some (r, y)) :
    r.status ≠ .invalidCommand := by
  have hsucceed {z : Contents} (h : Request.succeed z = some (r, y)) :
      r.status ≠ .invalidCommand := by
    obtain ⟨rfl, -⟩ := Prod.mk.inj (Option.some.inj h)
    exact Status.noConfusion
  have herase (h : q.eraseData d x = some (r, y)) : r.status ≠ .invalidCommand := by
    obtain ⟨z, _, hz⟩ := Option.bind_eq_some_iff.mp h
    exact hsucceed hz
  have hrespond {s : Status} {subcode : ℕ} {z : Contents} (hs : s ≠ .invalidCommand)
      (h : q.respond s subcode z = some (r, y)) : r.status ≠ .invalidCommand := by
    obtain ⟨rfl, -⟩ := Prod.mk.inj (Option.some.inj h)
    exact hs
  unfold Request.transfer at h
  cases hopcode : q.opcode with
  | access =>
    rw [hopcode] at h
    exact hsucceed h
  | erase =>
    rw [hopcode] at h
    exact herase h
  | compareHostData =>
    rw [hopcode] at h
    obtain ⟨diskBuffer, _, hdisk⟩ := Option.bind_eq_some_iff.mp h
    obtain ⟨memBuffer, _, hmem⟩ := Option.bind_eq_some_iff.mp hdisk
    cases memBuffer with
    | none => exact hrespond Status.noConfusion hmem
    | some buffer =>
      dsimp only at hmem
      split at hmem
      · exact hrespond Status.noConfusion hmem
      · exact herase hmem
  | read =>
    rw [hopcode] at h
    obtain ⟨diskBuffer, _, hdisk⟩ := Option.bind_eq_some_iff.mp h
    obtain ⟨result, _, hresult⟩ := Option.bind_eq_some_iff.mp hdisk
    dsimp only at hresult
    split at hresult
    · exact hsucceed hresult
    · exact hrespond Status.noConfusion hresult
  | write =>
    rw [hopcode] at h
    obtain ⟨memBuffer, _, hmem⟩ := Option.bind_eq_some_iff.mp h
    cases memBuffer with
    | none => exact hrespond Status.noConfusion hmem
    | some buffer =>
      obtain ⟨z, _, hz⟩ := Option.bind_eq_some_iff.mp hmem
      exact hsucceed hz

theorem reference_online (hopen : d.imageIsOpen = true) (honline : d.online = true) (x : Data) :
    q.reference b size (some d) x =
      if q.Fits d size then q.referenceTransfer b d size x else (.invalidCommand, x) := by
  unfold Request.reference
  dsimp only
  rw [if_neg (by simp [hopen]), if_neg (by simp [honline])]

/-- The checks let through what fits. -/
theorem accepts_iff_of_meets (hopen : d.imageIsOpen = true) (honline : d.online = true)
    (h : q.Meets b size (some d)) : q.Accepts d size ↔ q.Fits d size := by
  let x := probe size (fun _ => 0) 0
  obtain ⟨r, y, hy, hresult⟩ := h x rfl
  rw [reference_online hopen honline] at hresult
  have hstatus := congrArg Prod.fst hresult
  by_cases haccepts : q.Accepts d size
  · rw [doDiskTransfer_of_accepts (x := x) hopen honline haccepts] at hy
    refine iff_of_true haccepts (not_not.mp fun hfits => ?_)
    rw [if_neg hfits] at hstatus
    exact transfer_accepts hy hstatus
  · obtain ⟨subcode, hcode⟩ :=
      doDiskTransfer_of_not_accepts (b := b) (x := x) hopen honline haccepts
    rw [hcode] at hy
    obtain ⟨rfl, rfl⟩ := Prod.mk.inj (Option.some.inj hy)
    refine iff_of_false haccepts fun hfits => ?_
    rw [if_pos hfits] at hstatus
    exact referenceTransfer_accepts _ hstatus.symm

theorem transferMeets_of_meets (hopen : d.imageIsOpen = true) (honline : d.online = true)
    (hfits : q.Fits d size) (h : q.Meets b size (some d)) : TransferMeets q b d size := by
  intro x hx
  have hmeets := h x hx
  have haccepts := (accepts_iff_of_meets hopen honline h).mpr hfits
  subst hx
  rw [reference_online hopen honline, if_pos hfits,
    doDiskTransfer_of_accepts hopen honline haccepts] at hmeets
  exact hmeets

/-- `DoDiskTransfer` does what the reference says, whatever is on the disk, in the RCT and in
memory, iff the transfer is sound. -/
theorem meets_iff (b : Bus) (drive : Option Drive) (size : ℕ) (q : Request) :
    q.Meets b size drive ↔ q.Sound b size drive := by
  constructor
  · intro h d hdrive hopen honline
    subst hdrive
    have haccepts := accepts_iff_of_meets hopen honline h
    refine ⟨haccepts, fun hfits => ?_⟩
    have htransfer := transferMeets_of_meets hopen honline hfits h
    cases hopcode : q.opcode with
    | access =>
      unfold Request.TransferOk
      rw [hopcode]
      trivial
    | erase => exact erase_ok htransfer hopcode
    | compareHostData => exact compareHostData_ok hfits htransfer hopcode
    | read => exact read_ok htransfer hopcode
    | write => exact write_ok htransfer hopcode
  · intro h x hx
    subst hx
    cases drive with
    | none => exact ⟨_, _, rfl, rfl⟩
    | some d =>
      cases hopen : d.imageIsOpen with
      | false =>
        unfold Request.doDiskTransfer Request.reference
        dsimp only
        rw [if_pos hopen, if_pos hopen]
        exact ⟨_, _, rfl, rfl⟩
      | true =>
        cases honline : d.online with
        | false =>
          unfold Request.doDiskTransfer Request.reference
          dsimp only
          rw [if_neg (by simp [hopen]), if_pos honline, if_neg (by simp [hopen]), if_pos honline]
          exact ⟨_, _, rfl, rfl⟩
        | true =>
          obtain ⟨haccepts, hok⟩ := h d rfl hopen honline
          rw [reference_online hopen honline]
          by_cases hfits : q.Fits d x.image.size
          · rw [if_pos hfits, doDiskTransfer_of_accepts hopen honline (haccepts.mpr hfits)]
            exact transfer_of_transferOk hfits (hok hfits)
          · obtain ⟨subcode, hcode⟩ := doDiskTransfer_of_not_accepts (b := b) hopen honline
              fun h => hfits (haccepts.mp h)
            rw [if_neg hfits, hcode]
            exact ⟨_, _, rfl, rfl⟩

/-- COMPARE HOST DATA of a word that is the same on the disk and in memory -/
theorem compare_same_fails :
    ¬∀ (b : Bus) (drive : Option Drive) (size : ℕ) (q : Request), q.Meets b size drive := by
  intro h
  let b : Bus :=
    { space := 2 ^ 18
      answers := fun a => decide (a + 2 ≤ 0o760000)
      answers_inSpace := fun a ha => (of_decide_eq_true ha).trans (by decide) }
  let d : Drive :=
    { driveInfo := ⟨800, 0⟩
      mem_driveTable := List.mem_cons_self
      useImageSize := false
      online := true
      imageIsOpen := true
      imageIsReadonly := false }
  let q : Request := ⟨.compareHostData, 2, 0, 1⟩
  have hfits : q.Fits d 0 := by decide
  have hmeets := transferMeets_of_meets rfl rfl hfits (h b (some d) 0 q)
  have hok : q.TransferOk b d 0 := compareHostData_ok hfits hmeets rfl
  exact hok.2 (by decide)

end Comparison

end QUniBone.MscpDisk
