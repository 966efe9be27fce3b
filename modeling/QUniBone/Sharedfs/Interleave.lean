import QUniBone.Lib.Loop
import Mathlib.Data.List.GetD
import Mathlib.Data.List.Nodup
import Mathlib.Data.List.Perm.Basic
import Mathlib.Data.Nat.ModEq

/-!
# Interleaved sectors

`storagedrive_geometry.hpp`, and `build_interleave_table()` of `storageimage_partition.cpp`: the
order in which a file system uses the sectors of a track.

* `Geometry`: cylinders, heads and sectors of a drive.
* `Interleave`: the order of the sectors on a track, and by how much it is turned on the next one.
* `Tables`: from logical sectors to physical ones, and back.
* `buildInterleaveTable_inverse`: the tables are inverse to each other.
-/

namespace QUniBone.Sharedfs

/-! ## Geometry -/

/-- `storagedrive_geometry_c` -/
structure Geometry where
  cylinderCount : ℕ
  headCount : ℕ
  sectorCount : ℕ
  sectorSizeBytes : ℕ
  badSectorFileOffset : ℕ
  mscpBlockCount : ℕ
  filesystemOffset : ℕ

/-- What `get_chs()` returns -/
structure Chs where
  cylinder : ℕ
  head : ℕ
  sector : ℕ
  sectorOffset : ℕ

namespace Geometry

/-- The product is computed as an `unsigned`. -/
def getRawCapacity (g : Geometry) : ℕ :=
  if 0 < g.mscpBlockCount then g.mscpBlockCount * g.sectorSizeBytes % 2 ^ 32
  else g.cylinderCount * g.headCount * g.sectorCount * g.sectorSizeBytes % 2 ^ 32

def getBlockCount (g : Geometry) : ℕ :=
  if 0 < g.mscpBlockCount then g.mscpBlockCount
  else g.cylinderCount * g.headCount * g.sectorCount % 2 ^ 32

def getTrackNr (g : Geometry) (cylinder head : ℕ) : ℕ := cylinder * g.headCount + head

/-- Nothing where a division is by zero. -/
def getChs (g : Geometry) (imageOffset : ℕ) : Option Chs :=
  if g.sectorSizeBytes = 0 ∨ g.sectorCount = 0 ∨ g.headCount = 0 then none
  else
    let imageSectorNr := imageOffset / g.sectorSizeBytes
    let imageTrackNr := imageSectorNr / g.sectorCount
    some {
      cylinder := imageTrackNr / g.headCount
      head := imageTrackNr % g.headCount
      sector := imageSectorNr % g.sectorCount
      sectorOffset := imageOffset % g.sectorSizeBytes }

theorem getRawCapacity_lt (g : Geometry) : g.getRawCapacity < 2 ^ 32 := by
  unfold getRawCapacity
  split <;> exact Nat.mod_lt _ (by omega)

end Geometry

/-! ## Tables -/

/-- The parameters of `build_interleave_table()`: every sector of a track is used once. -/
structure Interleave where
  pattern : List ℕ
  cylinderSkew : ℕ
  headSkew : ℕ
  perm : pattern.Perm (List.range pattern.length)

/-- `log_sector_nr_to_phy` and `phy_sector_nr_to_log`, empty if no sectors are interleaved -/
structure Tables where
  logToPhy : List ℕ
  phyToLog : List ℕ

namespace Interleave

variable (i : Interleave)

/-- The place on its track of a logical sector -/
def place (skew logSector : ℕ) : ℕ := (i.pattern.getD logSector 0 + skew) % i.pattern.length

theorem getD_lt {l : ℕ} (h : l < i.pattern.length) :
    i.pattern.getD l 0 < i.pattern.length := by
  have hmem : i.pattern.getD l 0 ∈ i.pattern := by
    rw [List.getD_eq_getElem _ _ h]
    exact List.getElem_mem h
  exact List.mem_range.mp (i.perm.mem_iff.mp hmem)

theorem place_lt (skew : ℕ) {l : ℕ} (h : l < i.pattern.length) :
    i.place skew l < i.pattern.length :=
  Nat.mod_lt _ (Nat.zero_lt_of_lt h)

/-- Different sectors have different places. -/
theorem place_injective (skew : ℕ) {l m : ℕ} (hl : l < i.pattern.length)
    (hm : m < i.pattern.length) (h : i.place skew l = i.place skew m) : l = m := by
  have hsame : i.pattern.getD l 0 = i.pattern.getD m 0 := by
    have hmod : i.pattern.getD l 0 ≡ i.pattern.getD m 0 [MOD i.pattern.length] :=
      Nat.ModEq.add_right_cancel' skew h
    exact hmod.eq_of_lt_of_lt (i.getD_lt hl) (i.getD_lt hm)
  rw [List.getD_eq_getElem _ _ hl, List.getD_eq_getElem _ _ hm] at hsame
  have hnodup : i.pattern.Nodup := i.perm.nodup_iff.mpr List.nodup_range
  exact (hnodup.getElem_inj_iff).mp hsame

/-- Every place is that of a sector. -/
theorem exists_place (skew : ℕ) {v : ℕ} (h : v < i.pattern.length) :
    ∃ l < i.pattern.length, i.place skew l = v := by
  let n := i.pattern.length
  -- the sector that the pattern puts there, before the track is turned
  let w := (v + (n - skew % n)) % n
  have hw : w ∈ i.pattern := i.perm.mem_iff.mpr (List.mem_range.mpr (Nat.mod_lt _ (by omega)))
  obtain ⟨l, hl, hlw⟩ := List.mem_iff_getElem.mp hw
  refine ⟨l, hl, ?_⟩
  have hskew : skew % n < n := Nat.mod_lt _ (by omega)
  rw [place, List.getD_eq_getElem _ _ hl, hlw]
  calc (w + skew) % n = (v + (n - skew % n) + skew % n) % n := by
        rw [Nat.mod_add_mod, ← Nat.add_mod_mod]
    _ = (v + n) % n := by congr 1; omega
    _ = v := by rw [Nat.add_mod_right, Nat.mod_eq_of_lt h]

end Interleave

namespace Tables

/-- Both `at()` -/
def record (t : Tables) (logSectorNr phySectorNr : ℕ) : Option Tables :=
  if logSectorNr < t.logToPhy.length ∧ phySectorNr < t.phyToLog.length then
    some ⟨t.logToPhy.set logSectorNr phySectorNr, t.phyToLog.set phySectorNr logSectorNr⟩
  else none

/-- The first sectors are mapped among themselves, and back. -/
structure Inverse (t : Tables) (n : ℕ) : Prop where
  log : ∀ l < n, ∃ p < n, t.logToPhy[l]? = some p ∧ t.phyToLog[p]? = some l
  phy : ∀ p < n, ∃ l < n, t.phyToLog[p]? = some l ∧ t.logToPhy[l]? = some p

/-- The entries of a track of which the first `j` sectors have been recorded. -/
structure Recorded (i : Interleave) (base skew j : ℕ) (t u : Tables) : Prop where
  log_length : u.logToPhy.length = t.logToPhy.length
  phy_length : u.phyToLog.length = t.phyToLog.length
  log : ∀ l < j, u.logToPhy[base + l]? = some (base + i.place skew l)
  phy : ∀ l < j, u.phyToLog[base + i.place skew l]? = some (base + l)
  log_other : ∀ x, (∀ l < j, x ≠ base + l) → u.logToPhy[x]? = t.logToPhy[x]?
  phy_other : ∀ x, (∀ l < j, x ≠ base + i.place skew l) → u.phyToLog[x]? = t.phyToLog[x]?

/-- The inner loop of `build_interleave_table()`, over the sectors of a track -/
def recordSectors (i : Interleave) (base skew : ℕ) (sectors : List ℕ) (t : Tables) :
    Option Tables :=
  sectors.foldlM (fun t l => t.record (base + l) (base + i.place skew l)) t

theorem recorded_zero (i : Interleave) (base skew : ℕ) (t : Tables) :
    Recorded i base skew 0 t t := by
  constructor <;> simp

theorem record_eq_some_iff {t u : Tables} {l p : ℕ} :
    t.record l p = some u ↔ (l < t.logToPhy.length ∧ p < t.phyToLog.length) ∧
      ⟨t.logToPhy.set l p, t.phyToLog.set p l⟩ = u := by
  unfold record
  split <;> simp_all

/-- One sector more: its places in the tables are those of no earlier sector. -/
theorem Recorded.record {i : Interleave} {base skew j : ℕ} {t u v : Tables}
    (h : Recorded i base skew j t u) (hj : j < i.pattern.length)
    (hv : u.record (base + j) (base + i.place skew j) = some v) :
    Recorded i base skew (j + 1) t v := by
  obtain ⟨⟨hlog, hphy⟩, rfl⟩ := record_eq_some_iff.mp hv
  constructor
  · rw [List.length_set, h.log_length]
  · rw [List.length_set, h.phy_length]
  · intro l hl
    rcases Nat.lt_succ_iff_lt_or_eq.mp hl with hlt | rfl
    · rw [List.getElem?_set_ne (by omega), h.log l hlt]
    · exact List.getElem?_set_self hlog
  · intro l hl
    rcases Nat.lt_succ_iff_lt_or_eq.mp hl with hlt | rfl
    · have hne : i.place skew j ≠ i.place skew l := fun heq =>
        absurd (i.place_injective skew hj (by omega) heq) (by omega)
      rw [List.getElem?_set_ne (by omega), h.phy l hlt]
    · exact List.getElem?_set_self hphy
  · intro x hx
    have hlast := hx j (Nat.lt_succ_self j)
    rw [List.getElem?_set_ne (by omega), h.log_other x fun l hl => hx l (by omega)]
  · intro x hx
    have hlast := hx j (Nat.lt_succ_self j)
    rw [List.getElem?_set_ne (by omega), h.phy_other x fun l hl => hx l (by omega)]

theorem recorded_of_recordSectors {i : Interleave} {base skew : ℕ} {t u : Tables} {j : ℕ}
    (hj : j ≤ i.pattern.length) (h : recordSectors i base skew (List.range j) t = some u) :
    Recorded i base skew j t u := by
  induction j generalizing u with
  | zero =>
    obtain rfl : t = u := Option.some.inj h
    exact recorded_zero i base skew t
  | succ j ih =>
    rw [recordSectors, List.range_succ, List.foldlM_append] at h
    obtain ⟨v, hv, hlast⟩ := Option.bind_eq_some_iff.mp h
    obtain ⟨w, hw, hdone⟩ := Option.bind_eq_some_iff.mp hlast
    obtain rfl : w = u := Option.some.inj hdone
    exact (ih (by omega) hv).record hj hw

/-- A whole track keeps the sectors of the tracks before it, and adds its own. -/
theorem Recorded.inverse {i : Interleave} {k skew : ℕ} {t u : Tables}
    (h : Recorded i (k * i.pattern.length) skew i.pattern.length t u)
    (ht : t.Inverse (k * i.pattern.length)) : u.Inverse ((k + 1) * i.pattern.length) := by
  rw [Nat.succ_mul]
  generalize k * i.pattern.length = base at *
  constructor
  · intro l hl
    by_cases hold : l < base
    · obtain ⟨p, hp, hlp, hpl⟩ := ht.log l hold
      refine ⟨p, by omega, ?_, ?_⟩
      · rw [h.log_other l fun m _ => by omega, hlp]
      · rw [h.phy_other p fun m _ => by omega, hpl]
    · obtain ⟨m, rfl⟩ := Nat.exists_eq_add_of_le (Nat.le_of_not_lt hold)
      have hplace := i.place_lt skew (l := m) (by omega)
      exact ⟨base + i.place skew m, by omega, h.log m (by omega), h.phy m (by omega)⟩
  · intro p hp
    by_cases hold : p < base
    · obtain ⟨l, hl, hpl, hlp⟩ := ht.phy p hold
      refine ⟨l, by omega, ?_, ?_⟩
      · rw [h.phy_other p fun m _ => by omega, hpl]
      · rw [h.log_other l fun m _ => by omega, hlp]
    · obtain ⟨m, rfl⟩ := Nat.exists_eq_add_of_le (Nat.le_of_not_lt hold)
      obtain ⟨l, hl, hlm⟩ := i.exists_place skew (v := m) (by omega)
      subst hlm
      exact ⟨base + l, by omega, h.phy l hl, h.log l hl⟩

end Tables

/-! ## All tracks -/

/-- The variables of the loop over the tracks -/
structure TrackCursor where
  cylImage : ℕ
  headImage : ℕ
  trackSkew : ℕ
  tables : Tables

/-- `track_nr_partition` -/
def trackNrPartition (g : Geometry) (first : Chs) (c : TrackCursor) : ℕ :=
  (c.cylImage - first.cylinder) * g.headCount + c.headImage - first.head

/-- "step to next track" -/
def nextTrack (g : Geometry) (i : Interleave) (c : TrackCursor) (tables : Tables) : TrackCursor :=
  if g.headCount ≤ c.headImage + 1 then
    ⟨c.cylImage + 1, 0, c.trackSkew + i.cylinderSkew, tables⟩
  else ⟨c.cylImage, c.headImage + 1, c.trackSkew + i.headSkew, tables⟩

/-- A round of the loop over the tracks: nothing if a sector is behind the end of the tables. -/
def trackRound (g : Geometry) (i : Interleave) (first last : Chs) (c : TrackCursor) :
    Option Tables ⊕ TrackCursor :=
  if g.getTrackNr c.cylImage c.headImage ≤ g.getTrackNr last.cylinder last.head then
    match Tables.recordSectors i (trackNrPartition g first c * g.sectorCount) c.trackSkew
        (List.range g.sectorCount) c.tables with
    | some tables => .inr (nextTrack g i c tables)
    | none => .inl none
  else .inl (some c.tables)

/-- `build_interleave_table()`. The loop goes to the next track in every round, so that it makes
one round more than there are tracks. -/
def buildInterleaveTable (g : Geometry) (imagePosition size : ℕ) (i : Interleave) (t : Tables) :
    Option Tables :=
  if i.pattern.length = g.sectorCount then
    (g.getChs imagePosition).bind fun first =>
      if first.sector = 0 ∧ first.sectorOffset = 0 then
        (g.getChs (imagePosition + size - 1)).bind fun last =>
          (Loop.run (trackRound g i first last)
            (g.getTrackNr last.cylinder last.head - g.getTrackNr first.cylinder first.head + 2)
            ⟨first.cylinder, first.head, 0, t⟩).join
      else none
  else none

/-- A round of the loop that writes the inverse table a second time -/
def Tables.invertAt (t : Tables) (phySectorNr : ℕ) : Option Tables :=
  (t.phyToLog[phySectorNr]?).bind fun logSectorNr =>
    if logSectorNr < t.logToPhy.length then
      some { t with logToPhy := t.logToPhy.set logSectorNr phySectorNr }
    else none

/-- "build the inverted table" -/
def Tables.invert (t : Tables) (sectorCount : ℕ) : Option Tables :=
  (List.range sectorCount).foldlM Tables.invertAt t

variable {g : Geometry} {i : Interleave} {first last : Chs} {c : TrackCursor} {t u : Tables}

theorem getTrackNr_nextTrack (hhead : c.headImage < g.headCount) (tables : Tables) :
    g.getTrackNr (nextTrack g i c tables).cylImage (nextTrack g i c tables).headImage =
      g.getTrackNr c.cylImage c.headImage + 1 ∧
    (nextTrack g i c tables).headImage < g.headCount := by
  unfold nextTrack Geometry.getTrackNr
  split
  · next hlast =>
    refine ⟨?_, by show 0 < g.headCount; omega⟩
    show (c.cylImage + 1) * g.headCount + 0 = _
    rw [Nat.succ_mul]
    omega
  · next hmore => exact ⟨rfl, Nat.lt_of_not_le hmore⟩

/-- Tracks are numbered from the first one. -/
theorem trackNrPartition_eq
    (hle : g.getTrackNr first.cylinder first.head ≤ g.getTrackNr c.cylImage c.headImage)
    (hhead : c.headImage < g.headCount) :
    trackNrPartition g first c =
      g.getTrackNr c.cylImage c.headImage - g.getTrackNr first.cylinder first.head := by
  unfold trackNrPartition
  unfold Geometry.getTrackNr at *
  have hcyl : first.cylinder ≤ c.cylImage := by
    by_contra hlt
    have hmul := Nat.mul_le_mul_right g.headCount (show c.cylImage + 1 ≤ first.cylinder by omega)
    rw [Nat.succ_mul] at hmul
    omega
  obtain ⟨d, hd⟩ := Nat.exists_eq_add_of_le hcyl
  rw [hd, Nat.add_sub_cancel_left, Nat.add_mul]
  omega

/-- What the loop keeps: the sectors of the tracks before this one are mapped among themselves. -/
structure TracksDone (g : Geometry) (i : Interleave) (first : Chs) (t : Tables) (c : TrackCursor) :
    Prop where
  head_lt : c.headImage < g.headCount
  reached : g.getTrackNr first.cylinder first.head ≤ g.getTrackNr c.cylImage c.headImage
  log_length : c.tables.logToPhy.length = t.logToPhy.length
  phy_length : c.tables.phyToLog.length = t.phyToLog.length
  inverse : c.tables.Inverse (trackNrPartition g first c * i.pattern.length)

theorem trackRound_eq_inr {d : TrackCursor} (h : trackRound g i first last c = .inr d) :
    g.getTrackNr c.cylImage c.headImage ≤ g.getTrackNr last.cylinder last.head ∧
      ∃ tables, Tables.recordSectors i (trackNrPartition g first c * g.sectorCount) c.trackSkew
        (List.range g.sectorCount) c.tables = some tables ∧ nextTrack g i c tables = d := by
  unfold trackRound at h
  split at h
  · next hle =>
    split at h
    · next tables htables => exact ⟨hle, tables, htables, Sum.inr.inj h⟩
    · cases h
  · cases h

@[simp] theorem nextTrack_tables (tables : Tables) : (nextTrack g i c tables).tables = tables := by
  unfold nextTrack
  split <;> rfl

theorem TracksDone.round (hsectors : i.pattern.length = g.sectorCount)
    (h : TracksDone g i first t c) {d : TrackCursor}
    (hd : trackRound g i first last c = .inr d) : TracksDone g i first t d := by
  obtain ⟨-, tables, htables, rfl⟩ := trackRound_eq_inr hd
  obtain ⟨hnr, hhead⟩ := getTrackNr_nextTrack (i := i) h.head_lt tables
  have hbefore := h.reached
  have hreached : g.getTrackNr first.cylinder first.head ≤
      g.getTrackNr (nextTrack g i c tables).cylImage (nextTrack g i c tables).headImage := by
    omega
  have hpart : trackNrPartition g first (nextTrack g i c tables) =
      trackNrPartition g first c + 1 := by
    rw [trackNrPartition_eq hreached hhead, trackNrPartition_eq hbefore h.head_lt]
    omega
  rw [← hsectors] at htables
  have hrecorded := Tables.recorded_of_recordSectors le_rfl htables
  constructor
  · exact hhead
  · exact hreached
  · rw [nextTrack_tables, hrecorded.log_length, h.log_length]
  · rw [nextTrack_tables, hrecorded.phy_length, h.phy_length]
  · rw [nextTrack_tables, hpart]
    exact hrecorded.inverse h.inverse

/-- The place of a byte, put together again -/
theorem getChs_eq_some {offset : ℕ} {chs : Chs} (h : g.getChs offset = some chs) :
    0 < g.sectorSizeBytes ∧ 0 < g.sectorCount ∧ chs.head < g.headCount ∧
      g.getTrackNr chs.cylinder chs.head = offset / g.sectorSizeBytes / g.sectorCount ∧
      chs.sector = offset / g.sectorSizeBytes % g.sectorCount ∧
      chs.sectorOffset = offset % g.sectorSizeBytes := by
  unfold Geometry.getChs at h
  split at h
  · cases h
  · next hzero =>
    simp only [not_or] at hzero
    cases h
    refine ⟨by omega, by omega, Nat.mod_lt _ (by omega), ?_, rfl, rfl⟩
    exact Nat.div_add_mod' _ _

/-- A partition that begins with a track, and ends before another one -/
theorem size_le_tracks {imagePosition size bytes sectors track : ℕ} (hbytes : 0 < bytes)
    (hsectors : 0 < sectors) (hsector : imagePosition / bytes % sectors = 0)
    (hoffset : imagePosition % bytes = 0)
    (hend : (imagePosition + size - 1) / bytes / sectors < track) :
    size ≤ (track - imagePosition / bytes / sectors) * sectors * bytes := by
  have hpos : imagePosition = imagePosition / bytes / sectors * sectors * bytes := by
    have hsec := Nat.div_add_mod' (imagePosition / bytes) sectors
    have hbyte := Nat.div_add_mod' imagePosition bytes
    rw [hsector, Nat.add_zero] at hsec
    rw [hoffset, Nat.add_zero] at hbyte
    rw [hsec, hbyte]
  have hlast : imagePosition + size - 1 < track * sectors * bytes := by
    rw [Nat.div_lt_iff_lt_mul hsectors, Nat.div_lt_iff_lt_mul hbytes] at hend
    exact hend
  rw [Nat.sub_mul, Nat.sub_mul, ← hpos]
  omega

/-- What has been built: the lengths are kept, and the sectors of whole tracks, which hold the
partition, are mapped among themselves. -/
theorem buildInterleaveTable_inverse {imagePosition size : ℕ}
    (h : buildInterleaveTable g imagePosition size i t = some u) :
    u.logToPhy.length = t.logToPhy.length ∧ u.phyToLog.length = t.phyToLog.length ∧
      ∃ n, u.Inverse n ∧ size ≤ n * g.sectorSizeBytes := by
  unfold buildInterleaveTable at h
  split at h
  · next hsectors =>
    obtain ⟨first, hfirst, hstart⟩ := Option.bind_eq_some_iff.mp h
    split at hstart
    · next hboundary =>
      obtain ⟨last, hlast, hloop⟩ := Option.bind_eq_some_iff.mp hstart
      obtain ⟨hbytes, hsectorCount, hhead, hfirstNr, hsector, hoffset⟩ := getChs_eq_some hfirst
      obtain ⟨-, -, -, hlastNr, -, -⟩ := getChs_eq_some hlast
      have hreturns : Loop.Returns (trackRound g i first last) ⟨first.cylinder, first.head, 0, t⟩
          (some u) := ⟨_, Option.join_eq_some_iff.mp hloop⟩
      have hinit : TracksDone g i first t ⟨first.cylinder, first.head, 0, t⟩ := by
        refine ⟨hhead, le_rfl, rfl, rfl, ?_⟩
        rw [trackNrPartition_eq (c := ⟨first.cylinder, first.head, 0, t⟩) le_rfl hhead]
        constructor <;> simp
      -- the loop ends behind the last track
      have hdone : ∀ c r, TracksDone g i first t c → trackRound g i first last c = .inl r →
          ∀ v, r = some v → TracksDone g i first t { c with tables := v } ∧
            g.getTrackNr last.cylinder last.head < g.getTrackNr c.cylImage c.headImage := by
        intro c r hc hr v hv
        subst hv
        unfold trackRound at hr
        split at hr
        · split at hr <;> cases hr
        · next hbehind =>
          obtain rfl : c.tables = v := Option.some.inj (Sum.inl.inj hr)
          exact ⟨hc, Nat.lt_of_not_le hbehind⟩
      obtain ⟨c, hc, hr⟩ := hreturns.last
      have hI := hc.invariant (fun _ _ hI hstep => hI.round hsectors hstep) hinit
      obtain ⟨hu, hbehind⟩ := hdone c _ hI hr u rfl
      refine ⟨hu.log_length, hu.phy_length, _, hu.inverse, ?_⟩
      rw [hlastNr] at hbehind
      rw [trackNrPartition_eq hu.reached hu.head_lt, hfirstNr, hsectors]
      exact size_le_tracks hbytes hsectorCount (hsector ▸ hboundary.1) (hoffset ▸ hboundary.2)
        hbehind
    · cases hstart
  · cases h

/-- The second time nothing changes. -/
theorem Tables.Inverse.invert {n : ℕ} (h : t.Inverse n) : t.invert n = some t := by
  have hsame : ∀ p < n, t.invertAt p = some t := by
    intro p hp
    obtain ⟨l, -, hpl, hlp⟩ := h.phy p hp
    obtain ⟨hlt, hget⟩ := List.getElem?_eq_some_iff.mp hlp
    rw [invertAt, hpl, Option.bind_some, if_pos hlt, ← hget, List.set_getElem_self]
  have hfold : ∀ sectors : List ℕ, (∀ p ∈ sectors, p < n) →
      sectors.foldlM Tables.invertAt t = some t := by
    intro sectors
    induction sectors with
    | nil =>
      intro _
      rfl
    | cons p sectors ih =>
      intro hall
      rw [List.forall_mem_cons] at hall
      rw [List.foldlM_cons, hsame p hall.1]
      exact ih hall.2
  exact hfold _ fun p => List.mem_range.mp

end QUniBone.Sharedfs
