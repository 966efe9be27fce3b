import QUniBone.Floppy.Drive
import Mathlib.Tactic.Common

/-!
# Sectors are apart

Different sectors have different marks and different bytes of the image, all of them inside, but for
the mark of sector 26 on track 76: sectors count from 1, and the rows of the table have 26 elements,
so the mark is the one behind the table.

* `markIndex_inj`, `offset_apart`: two sectors.
* `Follows`: a drive and a floppy in step. `follows_step`: a call keeps them so.
* `sectors_kept_iff`: the drive is a floppy as long as nobody asks for the last sector.
-/

namespace QUniBone.RX0102Drive

open Drive

variable {d d' : Drive} {f : Floppy} {track sector track' sector' : ℕ}

/-! ## Two sectors -/

theorem markIndex_inj (h : Valid track sector) (h' : Valid track' sector')
    (heq : markIndex track sector = markIndex track' sector') :
    track = track' ∧ sector = sector' := by
  unfold Valid cylinderCount sectorCount at h h'
  unfold markIndex sectorCount at heq
  omega

/-- The image contains the track. -/
def Drive.InImage (d : Drive) (track : ℕ) : Prop := ¬(d.imagetrack0 = false ∧ track = 0)

theorem imageTrack_eq (h : d.InImage track) :
    d.imageTrack track = track ∨ 0 < track ∧ d.imageTrack track = track - 1 := by
  unfold Drive.InImage at h
  unfold Drive.imageTrack
  cases htrack0 : d.imagetrack0 with
  | true => exact Or.inl rfl
  | false =>
    right
    refine ⟨Nat.pos_of_ne_zero fun hzero => h ⟨htrack0, hzero⟩, rfl⟩

theorem imageTrack_inj (h : d.InImage track) (h' : d.InImage track')
    (heq : d.imageTrack track = d.imageTrack track') : track = track' := by
  have hpos : d.imagetrack0 = false → 0 < track ∧ 0 < track' := fun htrack0 =>
    ⟨Nat.pos_of_ne_zero fun hzero => h ⟨htrack0, hzero⟩,
      Nat.pos_of_ne_zero fun hzero => h' ⟨htrack0, hzero⟩⟩
  unfold Drive.imageTrack at heq
  cases htrack0 : d.imagetrack0 with
  | true => simpa [htrack0] using heq
  | false =>
    have hboth := hpos htrack0
    simp only [htrack0, Bool.false_eq_true, ↓reduceIte] at heq
    omega

/-- The bytes of different sectors do not overlap. -/
theorem offset_apart (h : Valid track sector) (h' : Valid track' sector')
    (hin : d.InImage track) (hin' : d.InImage track')
    (hne : ¬(track' = track ∧ sector' = sector)) {i : ℕ} (hi : i < d.sectorSizeBytes) :
    ¬(d.getSectorImageOffset (d.imageTrack track) sector ≤
        d.getSectorImageOffset (d.imageTrack track') sector' + i ∧
      d.getSectorImageOffset (d.imageTrack track') sector' + i <
        d.getSectorImageOffset (d.imageTrack track) sector + d.sectorSizeBytes) := by
  have hblock : d.imageTrack track * sectorCount + (sector - 1) ≠
      d.imageTrack track' * sectorCount + (sector' - 1) := by
    intro heq
    unfold Valid sectorCount at h h'
    unfold sectorCount at heq
    have htrack := imageTrack_inj hin hin' (by omega)
    rw [htrack] at heq
    exact hne ⟨htrack.symm, by omega⟩
  unfold getSectorImageOffset
  generalize d.imageTrack track * sectorCount + (sector - 1) = b at hblock
  generalize d.imageTrack track' * sectorCount + (sector' - 1) = b' at hblock
  have hsize : d.sectorSizeBytes = 256 ∨ d.sectorSizeBytes = 128 := by
    unfold sectorSizeBytes
    split
    · exact Or.inl rfl
    · exact Or.inr rfl
  obtain hsize | hsize := hsize <;> rw [hsize] at hi ⊢ <;> omega

theorem offset_inside (h : Valid track sector) (hin : d.InImage track) :
    d.Inside (.image (d.getSectorImageOffset (d.imageTrack track) sector) d.sectorSizeBytes) := by
  have htrack := imageTrack_eq hin
  show (d.imageTrack track * 26 + (sector - 1)) * d.sectorSizeBytes + d.sectorSizeBytes ≤
    77 * 26 * d.sectorSizeBytes
  unfold Valid cylinderCount sectorCount at h
  have hblock : d.imageTrack track * 26 + (sector - 1) + 1 ≤ 77 * 26 := by omega
  rw [← Nat.succ_mul]
  exact Nat.mul_le_mul_right _ hblock

/-- The marks but one are in the table. -/
theorem mark_inside_iff (h : Valid track sector) :
    d.Inside (.mark (markIndex track sector)) ↔ ¬(track = 76 ∧ sector = 26) := by
  unfold Valid cylinderCount sectorCount at h
  show track * 26 + sector < 77 * 26 ↔ _
  omega

/-! ## A call -/

/-- What a call never changes -/
structure SameSetup (d d' : Drive) : Prop where
  doubleDensity : d'.doubleDensity = d.doubleDensity
  imagetrack0 : d'.imagetrack0 = d.imagetrack0
  imageIsOpen : d'.imageIsOpen = d.imageIsOpen
  imageIsReadonly : d'.imageIsReadonly = d.imageIsReadonly

namespace SameSetup

theorem sectorSizeBytes (h : SameSetup d d') : d'.sectorSizeBytes = d.sectorSizeBytes := by
  unfold Drive.sectorSizeBytes
  rw [h.doubleDensity]

theorem stored (h : SameSetup d d') : d'.stored = d.stored := by
  funext track buffer
  unfold Drive.stored
  rw [h.imagetrack0, h.sectorSizeBytes]

theorem inside (h : SameSetup d d') (a : Access) : d'.Inside a ↔ d.Inside a := by
  cases a with
  | image offset len =>
    show offset + len ≤ _ ↔ offset + len ≤ _
    rw [h.sectorSizeBytes]
  | mark index => rfl

theorem writable (h : SameSetup d d') (hd : d.Writable) : d'.Writable :=
  ⟨h.imageIsOpen.trans hd.1, h.imageIsReadonly.trans hd.2⟩

end SameSetup

/-- A drive and a floppy in step -/
def Follows (d : Drive) (f : Floppy) : Prop :=
  ∀ track sector, Valid track sector → d.floppy track sector = f track sector

/-- The flags are not part of a floppy. -/
theorem checkDiskAddress_legal (d : Drive) (track sector : ℕ) :
    (d.checkDiskAddress track sector).1 = decide (Valid track sector) := by
  unfold Drive.checkDiskAddress Valid
  by_cases htrack : track < cylinderCount <;> by_cases hsector : 1 ≤ sector <;>
    by_cases hle : sector ≤ sectorCount <;> simp [htrack, hsector, hle] <;> omega

theorem checkDiskAddress_setup (d : Drive) (track sector : ℕ) :
    SameSetup d (d.checkDiskAddress track sector).2 := ⟨rfl, rfl, rfl, rfl⟩

theorem checkDiskAddress_frame (d : Drive) (track sector : ℕ) :
    d.Frame (d.checkDiskAddress track sector).2 :=
  ⟨fun _ _ => rfl, fun _ _ => rfl, rfl, rfl, rfl, rfl⟩

/-- The access to the image, if it contains the track -/
def Drive.imageAccess (d : Drive) (track sector : ℕ) : List Access :=
  if d.imagetrack0 = false ∧ track = 0 then []
  else [.image (d.getSectorImageOffset (d.imageTrack track) sector) d.sectorSizeBytes]

/-- The drive after a sector is written -/
def Drive.written (d : Drive) (buffer : ℕ → Byte) (mark : Bool) (track sector : ℕ) : Drive :=
  let d' := { d with memory := Function.update d.memory (markIndex track sector) mark }
  if d.imagetrack0 = false ∧ track = 0 then d'
  else d'.imageWrite buffer (d.getSectorImageOffset (d.imageTrack track) sector)

theorem sectorRead_refused (h : ¬Valid track sector) :
    d.sectorRead track sector = (.refused, (d.checkDiskAddress track sector).2, []) := by
  have hlegal := checkDiskAddress_legal d track sector
  rw [decide_eq_false h] at hlegal
  unfold sectorRead
  dsimp only
  rw [if_pos hlegal]

theorem sectorWrite_refused (h : ¬Valid track sector) (buffer : ℕ → Byte) (mark : Bool) :
    d.sectorWrite buffer mark track sector =
      (.refused, (d.checkDiskAddress track sector).2, []) := by
  have hlegal := checkDiskAddress_legal d track sector
  rw [decide_eq_false h] at hlegal
  unfold sectorWrite
  dsimp only
  rw [if_pos hlegal]

theorem sectorRead_valid (hd : d.Writable) (h : Valid track sector) :
    d.sectorRead track sector =
      (.sector (d.floppy track sector).data (d.floppy track sector).mark,
        (d.checkDiskAddress track sector).2,
        .mark (markIndex track sector) :: d.imageAccess track sector) := by
  have hlegal := checkDiskAddress_legal d track sector
  rw [decide_eq_true h] at hlegal
  have hopen : ¬(d.checkDiskAddress track sector).2.imageIsOpen = false := by
    show ¬d.imageIsOpen = false
    rw [hd.1]
    decide
  unfold sectorRead
  dsimp only
  rw [if_neg (by simp [hlegal]), if_neg hopen]
  show (if d.imagetrack0 = false ∧ track = 0 then _ else _) = _
  unfold Drive.imageAccess Drive.floppy Drive.stored
  by_cases hin : d.imagetrack0 = false ∧ track = 0
  · simp only [if_pos hin]
    rfl
  · simp only [if_neg hin]
    rfl

theorem sectorWrite_valid (hd : d.Writable) (h : Valid track sector) (buffer : ℕ → Byte)
    (mark : Bool) :
    d.sectorWrite buffer mark track sector =
      (.done, (d.checkDiskAddress track sector).2.written buffer mark track sector,
        .mark (markIndex track sector) :: d.imageAccess track sector) := by
  have hlegal := checkDiskAddress_legal d track sector
  rw [decide_eq_true h] at hlegal
  have hopen : ¬(d.checkDiskAddress track sector).2.imageIsOpen = false := by
    show ¬d.imageIsOpen = false
    rw [hd.1]
    decide
  have hreadonly : ¬(d.checkDiskAddress track sector).2.imageIsReadonly = true := by
    show ¬d.imageIsReadonly = true
    rw [hd.2]
    decide
  unfold sectorWrite
  dsimp only
  rw [if_neg (by simp [hlegal]), if_neg hopen, if_neg hreadonly]
  show (if d.imagetrack0 = false ∧ track = 0 then _ else _) = _
  unfold Drive.imageAccess
  by_cases hin : d.imagetrack0 = false ∧ track = 0
  · rw [if_pos hin, if_pos hin]
    exact Prod.ext rfl (Prod.ext (if_pos hin).symm rfl)
  · rw [if_neg hin, if_neg hin]
    exact Prod.ext rfl (Prod.ext (if_neg hin).symm rfl)

theorem written_setup (d : Drive) (track sector : ℕ) (buffer : ℕ → Byte) (mark : Bool) :
    SameSetup d (d.written buffer mark track sector) := by
  unfold Drive.written
  dsimp only
  split <;> exact ⟨rfl, rfl, rfl, rfl⟩

theorem written_memory (buffer : ℕ → Byte) (mark : Bool) :
    (d.written buffer mark track sector).memory =
      Function.update d.memory (markIndex track sector) mark := by
  unfold Drive.written
  dsimp only
  split <;> rfl

theorem written_image (hin : d.InImage track) (buffer : ℕ → Byte) (mark : Bool) :
    (d.written buffer mark track sector).image =
      (d.imageWrite buffer (d.getSectorImageOffset (d.imageTrack track) sector)).image := by
  unfold Drive.written
  dsimp only
  rw [if_neg hin]
  rfl

theorem written_image_outside (hin : ¬d.InImage track) (buffer : ℕ → Byte) (mark : Bool) :
    (d.written buffer mark track sector).image = d.image := by
  unfold Drive.written
  dsimp only
  rw [if_pos (not_not.mp hin)]

theorem stored_inImage (hin : d.InImage track) (buffer : ℕ → Byte) :
    d.stored track buffer = (List.range d.sectorSizeBytes).map buffer := if_neg hin

theorem stored_outside (hin : ¬d.InImage track) (buffer : ℕ → Byte) :
    d.stored track buffer = List.replicate d.sectorSizeBytes 0 := if_pos (not_not.mp hin)

/-- Writing is writing one sector of the floppy. -/
theorem written_floppy (h : Valid track sector) (h' : Valid track' sector') (buffer : ℕ → Byte)
    (mark : Bool) :
    (d.written buffer mark track sector).floppy track' sector' =
      d.floppy.put track sector ⟨d.stored track buffer, mark⟩ track' sector' := by
  have hsetup := written_setup d track sector buffer mark
  unfold Floppy.put
  have hmark : (d.written buffer mark track sector).memory (markIndex track' sector') =
      if track' = track ∧ sector' = sector then mark else d.memory (markIndex track' sector') := by
    rw [written_memory]
    split
    case isTrue hsame => rw [hsame.1, hsame.2, Function.update_self]
    case isFalse hne =>
      refine Function.update_of_ne (fun heq => hne ?_) _ _
      exact markIndex_inj h' h heq
  have hdata : (d.written buffer mark track sector).stored track' (fun i =>
        (d.written buffer mark track sector).image
          ((d.written buffer mark track sector).getSectorImageOffset
            ((d.written buffer mark track sector).imageTrack track') sector' + i)) =
      if track' = track ∧ sector' = sector then d.stored track buffer
      else (d.floppy track' sector').data := by
    have hoffset : (d.written buffer mark track sector).getSectorImageOffset
        ((d.written buffer mark track sector).imageTrack track') sector' =
          d.getSectorImageOffset (d.imageTrack track') sector' := by
      unfold getSectorImageOffset Drive.imageTrack
      rw [hsetup.sectorSizeBytes, hsetup.imagetrack0]
    rw [hsetup.stored, hoffset]
    by_cases hin' : d.InImage track'
    · rw [stored_inImage hin']
      split
      case isTrue hsame =>
        have hin : d.InImage track := hsame.1 ▸ hin'
        rw [stored_inImage hin, written_image hin, hsame.1, hsame.2]
        refine List.map_congr_left fun i hi => ?_
        have hlt := List.mem_range.mp hi
        show (if _ ≤ _ + i ∧ _ + i < _ + d.sectorSizeBytes then buffer (_ + i - _) else _) = _
        rw [if_pos ⟨by omega, by omega⟩, Nat.add_sub_cancel_left]
      case isFalse hne =>
        show _ = d.stored track' _
        rw [stored_inImage hin']
        refine List.map_congr_left fun i hi => ?_
        by_cases hin : d.InImage track
        · rw [written_image hin]
          exact if_neg (offset_apart h h' hin hin' hne (List.mem_range.mp hi))
        · rw [written_image_outside hin]
    · -- of track 0 nothing is kept
      rw [stored_outside hin']
      split
      case isTrue hsame => rw [stored_outside (hsame.1 ▸ hin')]
      case isFalse => exact (stored_outside hin' _).symm
  show (⟨_, _⟩ : Sector) = _
  rw [hmark, hdata]
  split <;> rfl

/-! ## Runs -/

/-- What a call does, other than to ask for the last sector -/
structure StepOk (d : Drive) (f : Floppy) (c : Call) : Prop where
  result : (d.step c).1 = (f.step d.stored c).1
  follows : Follows (d.step c).2.1 (f.step d.stored c).2
  inside : ∀ a ∈ (d.step c).2.2, d.Inside a
  frame : d.Frame (d.step c).2.1

theorem step_setup (hd : d.Writable) (c : Call) : SameSetup d (d.step c).2.1 := by
  cases c with
  | read track sector =>
    show SameSetup d (d.sectorRead track sector).2.1
    by_cases h : Valid track sector
    · rw [sectorRead_valid hd h]
      exact checkDiskAddress_setup d track sector
    · rw [sectorRead_refused h]
      exact checkDiskAddress_setup d track sector
  | write track sector buffer mark =>
    show SameSetup d (d.sectorWrite buffer mark track sector).2.1
    by_cases h : Valid track sector
    · rw [sectorWrite_valid hd h]
      have hwritten := written_setup (d.checkDiskAddress track sector).2 track sector buffer mark
      exact ⟨hwritten.doubleDensity, hwritten.imagetrack0, hwritten.imageIsOpen,
        hwritten.imageIsReadonly⟩
    · rw [sectorWrite_refused h]
      exact checkDiskAddress_setup d track sector

/-- The accesses of a valid call -/
theorem accesses_inside (h : Valid track sector) (hlast : ¬(track = 76 ∧ sector = 26)) :
    ∀ a ∈ .mark (markIndex track sector) :: d.imageAccess track sector, d.Inside a := by
  intro a ha
  rcases List.mem_cons.mp ha with rfl | himage
  · exact (mark_inside_iff h).mpr hlast
  · unfold Drive.imageAccess at himage
    split at himage
    case isTrue => cases himage
    case isFalse hin =>
      rw [List.mem_singleton.mp himage]
      exact offset_inside h hin

/-- Writing a sector leaves the rest of the drive alone. -/
theorem written_frame (h : Valid track sector) (hlast : ¬(track = 76 ∧ sector = 26))
    (buffer : ℕ → Byte) (mark : Bool) : d.Frame (d.written buffer mark track sector) := by
  have hsetup := written_setup d track sector buffer mark
  have hmark : markIndex track sector < cylinderCount * sectorCount :=
    (mark_inside_iff (d := d) h).mpr hlast
  refine ⟨fun i hi => ?_, fun i hi => ?_, hsetup.doubleDensity, hsetup.imagetrack0,
    hsetup.imageIsOpen, hsetup.imageIsReadonly⟩
  · by_cases hin : d.InImage track
    · have hinside : d.getSectorImageOffset (d.imageTrack track) sector + d.sectorSizeBytes ≤
        cylinderCount * sectorCount * d.sectorSizeBytes := offset_inside h hin
      rw [written_image hin]
      exact if_neg (by omega)
    · rw [written_image_outside hin]
  · rw [written_memory]
    exact Function.update_of_ne (by omega) _ _

theorem frame_trans {d'' : Drive} (h : d.Frame d') (h' : d'.Frame d'') : d.Frame d'' := by
  have hsize : d'.sectorSizeBytes = d.sectorSizeBytes := by
    unfold sectorSizeBytes
    rw [h.doubleDensity]
  refine ⟨fun i hi => ?_, fun i hi => (h'.memory i hi).trans (h.memory i hi),
    h'.doubleDensity.trans h.doubleDensity, h'.imagetrack0.trans h.imagetrack0,
    h'.imageIsOpen.trans h.imageIsOpen, h'.imageIsReadonly.trans h.imageIsReadonly⟩
  exact (h'.image i (by rw [hsize]; exact hi)).trans (h.image i hi)

theorem StepOk.of_eq {c : Call} {r : Result} {accesses : List Access} {f' : Floppy}
    (hstep : d.step c = (r, d', accesses)) (hspec : f.step d.stored c = (r, f'))
    (hfollows : Follows d' f') (hinside : ∀ a ∈ accesses, d.Inside a) (hframe : d.Frame d') :
    StepOk d f c where
  result := by rw [hstep, hspec]
  follows := by
    rw [hstep, hspec]
    exact hfollows
  inside := by
    rw [hstep]
    exact hinside
  frame := by
    rw [hstep]
    exact hframe

theorem stepOk (hd : d.Writable) (hf : Follows d f) {c : Call} (hlast : ¬c.Last) :
    StepOk d f c := by
  have hnone : ∀ a ∈ ([] : List Access), d.Inside a := fun a ha => absurd ha List.not_mem_nil
  cases c with
  | read track sector =>
    have hframe := checkDiskAddress_frame d track sector
    by_cases h : Valid track sector
    · have hspec : f.step d.stored (.read track sector) =
        (.sector (f track sector).data (f track sector).mark, f) := if_pos h
      rw [← hf track sector h] at hspec
      exact .of_eq (sectorRead_valid hd h) hspec hf (accesses_inside h hlast) hframe
    · exact .of_eq (sectorRead_refused h) (if_neg h) hf hnone hframe
  | write track sector buffer mark =>
    have hframe := checkDiskAddress_frame d track sector
    by_cases h : Valid track sector
    · refine .of_eq (sectorWrite_valid hd h buffer mark) (if_pos h) ?_ (accesses_inside h hlast)
        (frame_trans hframe (written_frame h hlast buffer mark))
      intro track' sector' h'
      rw [written_floppy h h']
      unfold Floppy.put
      split
      case isTrue => rfl
      case isFalse => exact hf track' sector' h'
    · exact .of_eq (sectorWrite_refused h buffer mark) (if_neg h) hf hnone hframe

/-- What a run does without calls for the last sector -/
structure RunOk (d : Drive) (f : Floppy) (calls : List Call) : Prop where
  results : (d.run calls).1 = (f.run d.stored calls).1
  follows : Follows (d.run calls).2.1 (f.run d.stored calls).2
  inside : ∀ a ∈ (d.run calls).2.2, d.Inside a
  frame : d.Frame (d.run calls).2.1

theorem runOk (hd : d.Writable) (hf : Follows d f) {calls : List Call}
    (hlast : ∀ c ∈ calls, ¬c.Last) : RunOk d f calls := by
  induction calls generalizing d f with
  | nil =>
    exact ⟨rfl, hf, fun a ha => absurd ha List.not_mem_nil,
      fun _ _ => rfl, fun _ _ => rfl, rfl, rfl, rfl, rfl⟩
  | cons c cs ih =>
    have hstep := stepOk hd hf (hlast c List.mem_cons_self)
    have hsetup := step_setup hd c
    have hrun := ih (hsetup.writable hd) hstep.follows fun c' hc' =>
      hlast c' (List.mem_cons_of_mem c hc')
    have hstored := hsetup.stored
    refine ⟨?_, ?_, ?_, frame_trans hstep.frame hrun.frame⟩
    · show (d.step c).1 :: ((d.step c).2.1.run cs).1 = _
      rw [hstep.result, hrun.results, hstored]
      rfl
    · have hfollows := hrun.follows
      rw [hstored] at hfollows
      exact hfollows
    · intro a ha
      rcases List.mem_append.mp ha with hfirst | hmore
      · exact hstep.inside a hfirst
      · exact (hsetup.inside a).mp (hrun.inside a hmore)

/-- A call for the last sector accesses what is behind the table. -/
theorem outside_of_last (hd : d.Writable) {calls : List Call} {c : Call} (hc : c ∈ calls)
    (hlast : c.Last) : ∃ a ∈ (d.run calls).2.2, ¬d.Inside a := by
  induction calls generalizing d with
  | nil => cases hc
  | cons c' cs ih =>
    rcases List.mem_cons.mp hc with rfl | hmem
    · have hvalid : Valid 76 26 := by decide
      have houtside : ¬d.Inside (.mark (markIndex 76 26)) := by
        show ¬markIndex 76 26 < cylinderCount * sectorCount
        decide
      refine ⟨.mark (markIndex 76 26), List.mem_append_left _ ?_, houtside⟩
      cases c with
      | read track sector =>
        obtain ⟨rfl, rfl⟩ := hlast
        show _ ∈ (d.sectorRead 76 26).2.2
        rw [sectorRead_valid hd hvalid]
        exact List.mem_cons_self
      | write track sector buffer mark =>
        obtain ⟨rfl, rfl⟩ := hlast
        show _ ∈ (d.sectorWrite buffer mark 76 26).2.2
        rw [sectorWrite_valid hd hvalid]
        exact List.mem_cons_self
    · have hsetup := step_setup hd c'
      obtain ⟨a, ha, houtside⟩ := ih (hsetup.writable hd) hmem
      exact ⟨a, List.mem_append_right _ ha, fun hin => houtside ((hsetup.inside a).mpr hin)⟩

theorem meets_of_not_last (hd : d.Writable) {calls : List Call} (hlast : ∀ c ∈ calls, ¬c.Last) :
    d.Meets calls := by
  have hrun := runOk hd (f := d.floppy) (fun _ _ _ => rfl) hlast
  exact ⟨hrun.results, hrun.follows, hrun.inside, hrun.frame⟩

/-- The drive is a floppy and touches nothing else as long as nobody asks for sector 26 of
track 76. -/
theorem sectors_kept_iff (hd : d.Writable) (calls : List Call) :
    d.Meets calls ↔ ∀ c ∈ calls, ¬c.Last := by
  refine ⟨fun h c hc hlast => ?_, meets_of_not_last hd⟩
  obtain ⟨a, ha, houtside⟩ := outside_of_last hd hc hlast
  exact houtside (h.inside a ha)

/-- A floppy just inserted -/
def Drive.blank : Drive where
  doubleDensity := true
  imagetrack0 := true
  imageIsOpen := true
  imageIsReadonly := false
  image := fun _ => 0
  memory := fun _ => false
  errorIllegalTrack := false
  errorIllegalSector := false

theorem sectors_kept_first : Drive.blank.Writable ∧
    Drive.blank.Meets [.write 1 1 (fun _ => 5) true, .read 1 1] :=
  ⟨⟨rfl, rfl⟩, (sectors_kept_iff ⟨rfl, rfl⟩ _).mpr (by simp [Call.Last])⟩

/-- The mark of the last sector is written behind the table. -/
theorem last_mark_outside :
    ¬∀ (d : Drive) (calls : List Call), d.Writable → d.Meets calls := by
  intro h
  let calls : List Call := [.write 76 26 (fun _ => 0) true]
  have hd : Drive.blank.Writable := ⟨rfl, rfl⟩
  obtain ⟨a, ha, houtside⟩ :=
    outside_of_last hd (List.mem_cons_self : _ ∈ calls) ⟨rfl, rfl⟩
  exact houtside ((h Drive.blank calls hd).inside a ha)

end QUniBone.RX0102Drive
