import QUniBone.Sharedfs.DecNames
import QUniBone.Sharedfs.Rt11
import QUniBone.Sharedfs.XxdpParse

/-!
# DEC names on the host, and back

A file gets a host path from its name. When the host tells that the file is there, the host name is
mapped back.

* `RT11.NameReturns`, `XXDP.NameReturns`: the file is found, and comes back to the same words.
* `RT11.Plain`, `XXDP.Plain`: the names that a host name can be.
* `names_return_iff`: these are the same names.
-/

namespace QUniBone.RT11

open Sharedfs

/-! ## RT-11 -/

/-- The words of a directory entry that tell what it is and how the file is called -/
structure DirEntry where
  status : BitVec 16
  words : NameWords

/-- `RT11_DIR_EEOS` is set. -/
def DirEntry.EndOfSegment (e : DirEntry) : Prop := e.status &&& 0o4000#16 ≠ 0#16

/-- `RT11_FILE_EMPTY` is set. -/
def DirEntry.Empty (e : DirEntry) : Prop := e.status &&& 0o1000#16 ≠ 0#16

/-- `RT11_FILE_EPERM` is set. -/
def DirEntry.Permanent (e : DirEntry) : Prop := e.status &&& 0o2000#16 ≠ 0#16

instance decidableEndOfSegment (e : DirEntry) : Decidable e.EndOfSegment :=
  inferInstanceAs (Decidable (_ ≠ _))

instance decidableEmpty (e : DirEntry) : Decidable e.Empty := inferInstanceAs (Decidable (_ ≠ _))

instance decidablePermanent (e : DirEntry) : Decidable e.Permanent :=
  inferInstanceAs (Decidable (_ ≠ _))

/-- The names of the files in a segment, as `parse_directory()` adds them -/
def segmentNames : List DirEntry → List (Text × Text)
  | [] => []
  | e :: es =>
    if e.EndOfSegment then []
    else if e.Empty then segmentNames es
    else if e.Permanent then (e.words.base, e.words.exten) :: segmentNames es
    else segmentNames es

theorem mem_segmentNames {before after : List DirEntry} {e : DirEntry}
    (hbefore : ∀ d ∈ before, ¬d.EndOfSegment) (hend : ¬e.EndOfSegment) (hempty : ¬e.Empty)
    (hpermanent : e.Permanent) :
    (e.words.base, e.words.exten) ∈ segmentNames (before ++ e :: after) := by
  induction before with
  | nil => simp [segmentNames, hend, hempty, hpermanent]
  | cons d before ih =>
    have htail := ih fun d hd => hbefore d (List.mem_cons_of_mem _ hd)
    rw [List.cons_append, segmentNames, if_neg (hbefore d (by simp))]
    split_ifs
    · exact htail
    · exact List.mem_cons_of_mem _ htail
    · exact htail

/-- The path of the file with some words -/
def pathOfWords (w : NameWords) : Text := makeFilename w.base w.exten

/-- What a stream appends to the path -/
def streamSuffix : StreamCode → Text
  | .data => []
  | .dirExt => ['.', 'd', 'i', 'r', 'e', 'x', 't']
  | .prefixBlock => ['.', 'p', 'r', 'e', 'f', 'i', 'x']

/-- `rt11_stream_c::get_host_path()` -/
def streamHostPath (w : NameWords) (code : StreamCode) : Text :=
  '/' :: pathOfWords w ++ streamSuffix code

/-- The file is not dropped, and the host paths of its streams lead back to it. -/
structure NameReturns (w : NameWords) : Prop where
  parsed : ∀ before after e, (∀ d ∈ before, ¬DirEntry.EndOfSegment d) → ¬e.EndOfSegment →
    ¬e.Empty → e.Permanent → e.words = w → (w.base, w.exten) ∈ segmentNames (before ++ e :: after)
  words : ∀ code, encodeWords (decName (filename (streamHostPath w code))) = w
  path : ∀ code, decPath (filename (streamHostPath w code)) = pathOfWords w
  stream : ∀ code, (splitStreamCode (filename (streamHostPath w code))).2 = code

/-- A name that a host name can be: there is no blank and no percent sign in it, no dot in its
extension, the basename is not only dots, and without an extension it has dots at its beginning
only. -/
structure Plain (w : NameWords) : Prop where
  base : ∀ c ∈ w.base, c ≠ ' ' ∧ c ≠ '%'
  exten : ∀ c ∈ w.exten, c ≠ ' ' ∧ c ≠ '%' ∧ c ≠ '.'
  begins : w.base = [] ∨ ∃ c ∈ w.base, c ≠ '.'
  noExten : w.exten = [] → splitExt w.base = (w.base, [])

/-! ### The path -/

/-- An empty basename is shown as an underscore. -/
theorem pathOfWords_eq (w : NameWords) :
    pathOfWords w = (if trim w.base = [] then ['_'] else trim w.base) ++
      (if trim w.exten = [] then [] else '.' :: trim w.exten) := by
  have hbase : ∀ c ∈ trim w.base, IsRad50 c := fun c hc => w.rad50_of_mem_base (mem_of_mem_trim hc)
  have hexten : ∀ c ∈ '.' :: trim w.exten, IsRad50 c := by
    intro c hc
    rcases List.mem_cons.mp hc with rfl | hc
    · exact ⟨0o34, by decide, rfl⟩
    · exact w.rad50_of_mem_exten (mem_of_mem_trim hc)
  unfold pathOfWords makeFilename
  simp only
  split_ifs
  · rfl
  · rw [List.append_nil, map_toUpper fun c hc => Or.inr (hbase c hc)]
  · refine map_toUpper fun c hc => ?_
    rcases List.mem_append.mp hc with hc | hc
    · exact Or.inl (List.mem_singleton.mp hc)
    · exact Or.inr (hexten c hc)
  · refine map_toUpper fun c hc => ?_
    rcases List.mem_append.mp hc with hc | hc
    · exact Or.inr (hbase c hc)
    · exact Or.inr (hexten c hc)

/-- Only the first character is not one of RAD50, for an empty basename. -/
theorem pathOfWords_cases (w : NameWords) :
    (w.base = [] ∧ ∃ r, pathOfWords w = '_' :: r ∧ ∀ c ∈ r, IsRad50 c) ∨
      ∀ c ∈ pathOfWords w, IsRad50 c := by
  have hrest : ∀ c ∈ (if trim w.exten = [] then [] else '.' :: trim w.exten), IsRad50 c := by
    intro c hc
    split_ifs at hc
    · cases hc
    · rcases List.mem_cons.mp hc with rfl | hc
      · exact ⟨0o34, by decide, rfl⟩
      · exact w.rad50_of_mem_exten (mem_of_mem_trim hc)
  rw [pathOfWords_eq]
  by_cases hbase : trim w.base = []
  · rw [if_pos hbase]
    exact Or.inl ⟨eq_nil_of_trim hbase w.rtrim_base, _, rfl, hrest⟩
  · rw [if_neg hbase]
    refine Or.inr fun c hc => ?_
    rcases List.mem_append.mp hc with hc | hc
    · exact w.rad50_of_mem_base (mem_of_mem_trim hc)
    · exact hrest c hc

theorem slash_not_mem_path (w : NameWords) : '/' ∉ pathOfWords w := by
  intro h
  rcases pathOfWords_cases w with ⟨-, r, hpath, hr⟩ | hall
  · rw [hpath, List.mem_cons] at h
    rcases h with h | h
    · cases h
    · exact (hr _ h).ne_slash rfl
  · exact (hall _ h).ne_slash rfl

theorem filename_streamHostPath (w : NameWords) (code : StreamCode) :
    filename (streamHostPath w code) = pathOfWords w ++ streamSuffix code := by
  refine filename_slash ?_
  intro h
  rcases List.mem_append.mp h with h | h
  · exact slash_not_mem_path w h
  · cases code <;> exact absurd h (by decide)

/-! ### Streams -/

theorem splitStreamCode_short {s : Text} (h : (splitExt s).2.length < 6) :
    splitStreamCode s = (s, .data) := by
  have hne : ∀ t : Text, t.length = 6 → ¬(splitExt s).2.map toUpper = t := by
    rintro t ht rfl
    rw [List.length_map] at ht
    omega
  unfold splitStreamCode
  simp only
  rw [if_neg (hne _ rfl), if_neg (hne _ rfl)]

/-- No extension of a DEC file is a stream code. -/
theorem splitStreamCode_path (w : NameWords) :
    splitStreamCode (pathOfWords w) = (pathOfWords w, .data) := by
  refine splitStreamCode_short ?_
  have hbase := (length_trim_le w.base).trans w.base_length_le
  have hexten := (length_trim_le w.exten).trans w.exten_length_le
  rw [pathOfWords_eq]
  by_cases hnone : trim w.exten = []
  · -- without an extension, the name is too short
    rw [if_pos hnone, List.append_nil]
    have hlen : (if trim w.base = [] then ['_'] else trim w.base).length ≤ 6 := by
      split_ifs
      · decide
      · exact hbase
    rcases splitExt_cases (if trim w.base = [] then ['_'] else trim w.base) with
      h | ⟨x, y, h, hs, -, -⟩
    · rw [h]
      exact Nat.succ_pos 5
    · rw [h]
      rw [hs] at hlen
      simp only [List.length_append, List.length_cons] at hlen
      show y.length < 6
      omega
  · rw [if_neg hnone]
    exact (splitExt_length_le _ _).trans_lt (by omega)

theorem splitStreamCode_append {s : Text} (h : ∃ c ∈ s, c ≠ '.') {code : StreamCode}
    (hcode : code ≠ .data) : splitStreamCode (s ++ streamSuffix code) = (s, code) := by
  unfold splitStreamCode
  cases code with
  | data => exact absurd rfl hcode
  | dirExt =>
    rw [streamSuffix, splitExt_append (by decide) h]
    rfl
  | prefixBlock =>
    rw [streamSuffix, splitExt_append (by decide) h]
    rfl

theorem splitStreamCode_dots {s : Text} (h : ∀ c ∈ s, c = '.') :
    splitStreamCode (s ++ streamSuffix .dirExt) = (s ++ streamSuffix .dirExt, .data) := by
  refine splitStreamCode_short ?_
  rw [streamSuffix, splitExt_dots (by decide) h]
  exact Nat.succ_pos 5

/-! ### Back again -/

/-- With no blank and no percent sign in it, only the underscore of the path is changed. -/
theorem map_pathOfWords {w : NameWords} (hbase : ∀ c ∈ w.base, c ≠ ' ' ∧ c ≠ '%')
    (hexten : ∀ c ∈ w.exten, c ≠ ' ' ∧ c ≠ '%') :
    (pathOfWords w).map (fromHost '$') = (if w.base = [] then [' '] else w.base) ++
      (if w.exten = [] then [] else '.' :: w.exten) := by
  rw [pathOfWords_eq, trim_eq_self (w.isSpace_base fun c hc => (hbase c hc).1),
    trim_eq_self (w.isSpace_exten fun c hc => (hexten c hc).1), List.map_append]
  have hfirst : w.base.map (fromHost '$') = w.base :=
    fromHost_map (fun _ => w.rad50_of_mem_base) fun c hc => not_or.mpr (hbase c hc)
  have hlast : w.exten.map (fromHost '$') = w.exten :=
    fromHost_map (fun _ => w.rad50_of_mem_exten) fun c hc => not_or.mpr (hexten c hc)
  congr 1
  · split_ifs
    · rfl
    · exact hfirst
  · split_ifs
    · rfl
    · rw [List.map_cons, hlast]
      rfl

/-- The name comes back. -/
theorem cutName_path_iff {w : NameWords} (hbase : ∀ c ∈ w.base, c ≠ ' ' ∧ c ≠ '%')
    (hexten : ∀ c ∈ w.exten, c ≠ ' ' ∧ c ≠ '%') :
    cutName ((pathOfWords w).map (fromHost '$')) = (w.base, w.exten) ↔
      '.' ∉ w.exten ∧ (w.exten ≠ [] → w.base = [] ∨ ∃ c ∈ w.base, c ≠ '.') ∧
        (w.exten = [] → splitExt w.base = (w.base, [])) := by
  have hbaseSpace := w.isSpace_base fun c hc => (hbase c hc).1
  have hextenSpace := w.isSpace_exten fun c hc => (hexten c hc).1
  rw [map_pathOfWords hbase hexten]
  by_cases hnone : w.exten = []
  · rw [if_pos hnone, List.append_nil, hnone]
    by_cases hempty : w.base = []
    · rw [if_pos hempty, hempty]
      simp [splitExt, splitLast, cutName, trim, ltrim, rtrim, isSpace]
    · rw [if_neg hempty, cutName_base_iff w.base_length_le hbaseSpace]
      simp
  · rw [if_neg hnone]
    by_cases hdot : '.' ∈ w.exten
    · -- the extension is cut at its dot
      exact iff_of_false (fun h => cutName_ext_ne hdot (congrArg Prod.snd h)) fun h => h.1 hdot
    · by_cases hbegins : w.base = [] ∨ ∃ c ∈ w.base, c ≠ '.'
      · have hshown : ∃ c ∈ (if w.base = [] then [' '] else w.base), c ≠ '.' := by
          rcases hbegins with hempty | hne
          · rw [if_pos hempty]
            exact ⟨' ', by simp, by decide⟩
          · split_ifs
            · exact ⟨' ', by simp, by decide⟩
            · exact hne
        have hcut : trim ((if w.base = [] then [' '] else w.base).take 6) = w.base := by
          split_ifs with hempty
          · rw [hempty]
            rfl
          · rw [List.take_of_length_le w.base_length_le, trim_eq_self hbaseSpace]
        rw [cutName_append hdot hshown, hcut, List.take_of_length_le w.exten_length_le,
          trim_eq_self hextenSpace]
        exact iff_of_true rfl ⟨hdot, fun _ => hbegins, fun h => absurd h hnone⟩
      · -- without another character, all are dots at the beginning of a name
        rw [not_or] at hbegins
        have hdots : ∀ c ∈ w.base, c = '.' := by
          intro c hc
          by_contra hne
          exact hbegins.2 ⟨c, hc, hne⟩
        rw [if_neg hbegins.1, cutName_dots hdot hdots]
        refine iff_of_false (fun h => hnone (congrArg Prod.snd h).symm) fun h => ?_
        rcases h.2.1 hnone with hempty | hne
        · exact hbegins.1 hempty
        · exact hbegins.2 hne

theorem isRad50_map (s : Text) : ∀ c ∈ s.map (fromHost '$'), IsRad50 c := by
  intro c hc
  obtain ⟨d, -, rfl⟩ := List.mem_map.mp hc
  exact isRad50_fromHost ⟨0o33, by decide, rfl⟩ d

/-- The data stream comes back to the words if these stand for the name that is found. -/
theorem words_data_iff (w : NameWords) :
    encodeWords (decName (filename (streamHostPath w .data))) = w ↔
      w.Valid ∧ cutName ((pathOfWords w).map (fromHost '$')) = (w.base, w.exten) := by
  rw [filename_streamHostPath, streamSuffix, List.append_nil, decName, splitStreamCode_path,
    filenameFromHost_eq]
  exact encodeWords_eq_iff (isDecName_cutName (isRad50_map _)) w

/-- A blank or a percent sign does not come from a host name. -/
theorem clean_of_cutName {w : NameWords}
    (h : cutName ((pathOfWords w).map (fromHost '$')) = (w.base, w.exten)) :
    (∀ c ∈ w.base, c ≠ ' ' ∧ c ≠ '%') ∧ ∀ c ∈ w.exten, c ≠ ' ' ∧ c ≠ '%' := by
  have hmap : ∀ s : Text, (∀ c ∈ s, IsRad50 c) →
      ∀ c ∈ s.map (fromHost '$'), c ≠ ' ' ∧ c ≠ '%' := by
    intro s hs c hc
    obtain ⟨d, hd, rfl⟩ := List.mem_map.mp hc
    rw [(hs d hd).fromHost_eq]
    split_ifs with hbad
    · decide
    · exact not_or.mp hbad
  have hfirst : ∀ c ∈ w.base, c ∈ (pathOfWords w).map (fromHost '$') := fun c hc =>
    mem_of_mem_cutName.1 (by rw [h]; exact hc)
  have hlast : ∀ c ∈ w.exten, c ∈ ((pathOfWords w).map (fromHost '$')).tail := fun c hc =>
    mem_of_mem_cutName.2 (by rw [h]; exact hc)
  rcases pathOfWords_cases w with ⟨hempty, r, hpath, hr⟩ | hall
  · rw [hpath, List.map_cons, List.tail_cons] at hlast
    exact ⟨fun c hc => by simp [hempty] at hc, fun c hc => hmap r hr c (hlast c hc)⟩
  · exact ⟨fun c hc => hmap _ hall c (hfirst c hc),
      fun c hc => hmap _ hall c (List.mem_of_mem_tail (hlast c hc))⟩

theorem NameReturns.plain {w : NameWords} (h : NameReturns w) : Plain w := by
  obtain ⟨-, hcut⟩ := (words_data_iff w).mp (h.words .data)
  obtain ⟨hbase, hexten⟩ := clean_of_cutName hcut
  obtain ⟨hdot, hbegins, hnone⟩ := (cutName_path_iff hbase hexten).mp hcut
  refine ⟨hbase, ?_, ?_, hnone⟩
  · exact fun c hc => ⟨(hexten c hc).1, (hexten c hc).2, fun heq => hdot (heq ▸ hc)⟩
  by_cases hexten : w.exten = []
  · -- a path of dots takes the stream code for a part of its name
    by_contra hdots
    rw [not_or] at hdots
    have hpath : pathOfWords w = w.base := by
      rw [pathOfWords_eq, trim_eq_self (w.isSpace_base fun c hc => (hbase c hc).1), hexten,
        if_neg hdots.1]
      exact List.append_nil _
    have hall : ∀ c ∈ pathOfWords w, c = '.' := by
      intro c hc
      by_contra hne
      exact hdots.2 ⟨c, hpath ▸ hc, hne⟩
    have hcode := h.stream .dirExt
    rw [filename_streamHostPath, splitStreamCode_dots hall] at hcode
    cases hcode
  · exact hbegins hexten

theorem Plain.returns {w : NameWords} (h : Plain w) : NameReturns w := by
  have hexten : ∀ c ∈ w.exten, c ≠ ' ' ∧ c ≠ '%' := fun c hc =>
    ⟨(h.exten c hc).1, (h.exten c hc).2.1⟩
  have hcut : cutName ((pathOfWords w).map (fromHost '$')) = (w.base, w.exten) :=
    (cutName_path_iff h.base hexten).mpr
      ⟨fun hdot => (h.exten _ hdot).2.2 rfl, fun _ => h.begins, h.noExten⟩
  have hvalid : w.Valid :=
    w.valid_of_percent (fun hc => (h.base _ hc).2 rfl) fun hc => (hexten _ hc).2 rfl
  have hpath : ∃ c ∈ pathOfWords w, c ≠ '.' := by
    rw [pathOfWords_eq, trim_eq_self (w.isSpace_base fun c hc => (h.base c hc).1)]
    rcases h.begins with hempty | ⟨c, hc, hne⟩
    · rw [if_pos hempty]
      exact ⟨'_', by simp, by decide⟩
    · rw [if_neg (List.ne_nil_of_mem hc)]
      exact ⟨c, List.mem_append_left _ hc, hne⟩
  have hsplit : ∀ code,
      splitStreamCode (filename (streamHostPath w code)) = (pathOfWords w, code) := by
    intro code
    rw [filename_streamHostPath]
    by_cases hcode : code = .data
    · rw [hcode, streamSuffix, List.append_nil, splitStreamCode_path]
    · exact splitStreamCode_append hpath hcode
  have hname : ∀ code, decName (filename (streamHostPath w code)) = (w.base, w.exten) := by
    intro code
    rw [decName, hsplit, filenameFromHost_eq, hcut]
  refine ⟨?_, fun code => ?_, fun code => ?_, fun code => ?_⟩
  · rintro before after e hbefore hend hempty hpermanent rfl
    exact mem_segmentNames hbefore hend hempty hpermanent
  · rw [hname, encodeWords_base_exten hvalid]
  · rw [decPath, hname]
    rfl
  · rw [hsplit]

end QUniBone.RT11

namespace QUniBone.XXDP

open Sharedfs

/-! ## XXDP -/

/-- An entry with some name in it -/
def UfdEntry.HasWords (e : UfdEntry) (w : NameWords) : Prop :=
  e.name1 = w.name1.toNat ∧ e.name2 = w.name2.toNat ∧ e.ext = w.ext.toNat

/-- The file is not dropped, and its host path leads back to it. -/
structure NameReturns (w : NameWords) : Prop where
  parsed : ∀ bs b j, b ∈ bs → j < ufdEntriesPerBlock → (ufdEntry b j).HasWords w →
    ufdEntry b j ∈ ufdEntries bs
  words : ∀ e t, UfdEntry.HasWords e w →
    encodeWords (decName (filename (e.toFile t).hostPath)) = w
  path : ∀ e t, UfdEntry.HasWords e w → decPath (filename (e.toFile t).hostPath) = e.path

/-- A name that a host name can be: there is no blank in it, no dot in its extension, and the
basename is not only dots, unless there are six of them and no extension. -/
structure Plain (w : NameWords) : Prop where
  valid : w.Valid
  base : ∀ c ∈ w.base, c ≠ ' '
  exten : ∀ c ∈ w.exten, c ≠ ' ' ∧ c ≠ '.'
  begins : (∃ c ∈ w.base, c ≠ '.') ∨ (w.base.length = 6 ∧ w.exten = [])

/-- The path of the file with some words -/
def pathOfWords (w : NameWords) : Text := trim w.base ++ '.' :: trim w.exten

theorem rad50_of_mem_path {w : NameWords} {c : Char} (h : c ∈ pathOfWords w) : IsRad50 c := by
  rcases List.mem_append.mp h with h | h
  · exact w.rad50_of_mem_base (mem_of_mem_trim h)
  · rcases List.mem_cons.mp h with rfl | h
    · exact ⟨0o34, by decide, rfl⟩
    · exact w.rad50_of_mem_exten (mem_of_mem_trim h)

theorem UfdEntry.HasWords.path_eq {e : UfdEntry} {w : NameWords} (h : e.HasWords w) :
    e.path = pathOfWords w := by
  obtain ⟨hname1, hname2, hext⟩ := h
  rw [UfdEntry.path, UfdEntry.basename, hname1, hname2, hext]
  show (trim w.basename ++ '.' :: trim w.extension).map toUpper = pathOfWords w
  rw [w.trim_basename, w.trim_extension]
  exact map_toUpper fun c hc => Or.inr (rad50_of_mem_path hc)

theorem filename_hostPath {e : UfdEntry} {w : NameWords} (h : e.HasWords w) (t : Tm) :
    filename (e.toFile t).hostPath = pathOfWords w := by
  show filename ('/' :: e.path) = pathOfWords w
  rw [h.path_eq]
  exact filename_slash fun hslash => (rad50_of_mem_path hslash).ne_slash rfl

/-- A name comes back to the words if these stand for the name that is found. -/
theorem words_iff (w : NameWords) : encodeWords (decName (pathOfWords w)) = w ↔
    w.Valid ∧ cutName ((pathOfWords w).map (fromHost '%')) = (w.base, w.exten) := by
  have hmap : ∀ c ∈ (pathOfWords w).map (fromHost '%'), IsRad50 c := by
    intro c hc
    obtain ⟨d, -, rfl⟩ := List.mem_map.mp hc
    exact isRad50_fromHost ⟨0o35, by decide, rfl⟩ d
  rw [decName, filenameFromHost_eq]
  exact encodeWords_eq_iff (isDecName_cutName hmap) w

/-- A blank does not come from a host name. -/
theorem clean_of_cutName {w : NameWords}
    (h : cutName ((pathOfWords w).map (fromHost '%')) = (w.base, w.exten)) :
    (∀ c ∈ w.base, c ≠ ' ') ∧ ∀ c ∈ w.exten, c ≠ ' ' := by
  have hmap : ∀ c ∈ (pathOfWords w).map (fromHost '%'), c ≠ ' ' := by
    intro c hc
    obtain ⟨d, hd, rfl⟩ := List.mem_map.mp hc
    rw [(rad50_of_mem_path hd).fromHost_eq]
    split_ifs with hbad
    · decide
    · exact (not_or.mp hbad).1
  exact ⟨fun c hc => hmap c (mem_of_mem_cutName.1 (by rw [h]; exact hc)),
    fun c hc => hmap c (List.mem_of_mem_tail (mem_of_mem_cutName.2 (by rw [h]; exact hc)))⟩

/-- Without blanks in it, the path is not changed. -/
theorem map_pathOfWords {w : NameWords} (hbase : ∀ c ∈ w.base, c ≠ ' ')
    (hexten : ∀ c ∈ w.exten, c ≠ ' ') :
    (pathOfWords w).map (fromHost '%') = w.base ++ '.' :: w.exten := by
  have hpath : pathOfWords w = w.base ++ '.' :: w.exten := by
    rw [pathOfWords, trim_eq_self (w.isSpace_base hbase), trim_eq_self (w.isSpace_exten hexten)]
  have hblank : ∀ c ∈ w.base ++ '.' :: w.exten, c ≠ ' ' := by
    intro c hc
    rcases List.mem_append.mp hc with hc | hc
    · exact hbase c hc
    · rcases List.mem_cons.mp hc with rfl | hc
      · decide
      · exact hexten c hc
  have hid : ∀ c ∈ w.base ++ '.' :: w.exten, fromHost '%' c = c := by
    intro c hc
    have hrad50 : IsRad50 c := rad50_of_mem_path (hpath ▸ hc)
    rw [hrad50.fromHost_eq]
    -- the percent sign stands for itself
    split_ifs with hbad
    · exact (hbad.resolve_left (hblank c hc)).symm
    · rfl
  rw [hpath, List.map_congr_left hid]
  exact List.map_id' _

/-- The name comes back. -/
theorem cutName_path_iff {w : NameWords} (hbase : ∀ c ∈ w.base, c ≠ ' ')
    (hexten : ∀ c ∈ w.exten, c ≠ ' ') :
    cutName ((pathOfWords w).map (fromHost '%')) = (w.base, w.exten) ↔
      '.' ∉ w.exten ∧ ((∃ c ∈ w.base, c ≠ '.') ∨ (w.base.length = 6 ∧ w.exten = [])) := by
  rw [map_pathOfWords hbase hexten]
  by_cases hdot : '.' ∈ w.exten
  · -- the extension is cut at its dot
    exact iff_of_false (fun h => cutName_ext_ne hdot (congrArg Prod.snd h)) fun h => h.1 hdot
  · by_cases hbegins : ∃ c ∈ w.base, c ≠ '.'
    · rw [cutName_append hdot hbegins, List.take_of_length_le w.base_length_le,
        List.take_of_length_le w.exten_length_le, trim_eq_self (w.isSpace_base hbase),
        trim_eq_self (w.isSpace_exten hexten)]
      exact iff_of_true rfl ⟨hdot, Or.inl hbegins⟩
    · have hdots : ∀ c ∈ w.base, c = '.' := by
        intro c hc
        by_contra hne
        exact hbegins ⟨c, hc, hne⟩
      rw [cutName_dots hdot hdots]
      constructor
      · intro h
        have hnone : w.exten = [] := (congrArg Prod.snd h).symm
        have hfirst : trim ((w.base ++ '.' :: w.exten).take 6) = w.base := congrArg Prod.fst h
        have hspace : ∀ c ∈ (w.base ++ '.' :: w.exten).take 6, isSpace c = false := by
          intro c hc
          rcases List.mem_append.mp (List.mem_of_mem_take hc) with hc | hc
          · exact w.isSpace_base hbase c hc
          · rw [hnone, List.mem_singleton] at hc
            rw [hc]
            decide
        rw [trim_eq_self hspace, hnone] at hfirst
        -- the dot of the path becomes a part of the name, if there is room for it
        have hlength := congrArg List.length hfirst
        have hle := w.base_length_le
        rw [List.length_take, List.length_append, List.length_singleton] at hlength
        exact ⟨hdot, Or.inr ⟨by omega, hnone⟩⟩
      · rintro ⟨-, hne | ⟨hlength, hnone⟩⟩
        · exact absurd hne hbegins
        · rw [hnone, List.take_append_of_le_length hlength.ge,
            List.take_of_length_le hlength.le, trim_eq_self (w.isSpace_base hbase)]

theorem NameReturns.plain {w : NameWords} (h : NameReturns w) : Plain w := by
  let e : UfdEntry := ⟨w.name1.toNat, w.name2.toNat, w.ext.toNat, 0, 0, 0, 0⟩
  have hwords := h.words e nullTime ⟨rfl, rfl, rfl⟩
  rw [filename_hostPath (w := w) ⟨rfl, rfl, rfl⟩] at hwords
  obtain ⟨hvalid, hcut⟩ := (words_iff w).mp hwords
  obtain ⟨hbase, hexten⟩ := clean_of_cutName hcut
  obtain ⟨hdot, hbegins⟩ := (cutName_path_iff hbase hexten).mp hcut
  exact ⟨hvalid, hbase, fun c hc => ⟨hexten c hc, fun heq => hdot (heq ▸ hc)⟩, hbegins⟩

/-- The basename does not begin with a blank, so that the first word is not zero. -/
theorem Plain.name1_ne {w : NameWords} (h : Plain w) : w.name1.toNat ≠ 0 := by
  intro hzero
  have hfirst : w.basename = ' ' :: ' ' :: ' ' :: rad50Decode w.name2.toNat := by
    rw [NameWords.basename, hzero]
    rfl
  have hne : w.base ≠ [] := by
    rcases h.begins with ⟨c, hc, -⟩ | ⟨hlength, -⟩
    · exact List.ne_nil_of_mem hc
    · exact List.ne_nil_of_length_eq_add_one hlength
  obtain ⟨r, hr⟩ : w.base <+: w.basename := List.rdropWhile_prefix isSpace _
  obtain ⟨c, s, hcons⟩ := List.exists_cons_of_ne_nil hne
  rw [hcons, hfirst] at hr
  have hc : c = ' ' := (List.cons.inj hr).1
  exact h.base c (by rw [hcons]; simp) hc

theorem Plain.returns {w : NameWords} (h : Plain w) : NameReturns w := by
  have hexten : ∀ c ∈ w.exten, c ≠ ' ' := fun c hc => (h.exten c hc).1
  have hcut : cutName ((pathOfWords w).map (fromHost '%')) = (w.base, w.exten) :=
    (cutName_path_iff h.base hexten).mpr ⟨fun hdot => (h.exten _ hdot).2 rfl, h.begins⟩
  refine ⟨?_, fun e t he => ?_, fun e t he => ?_⟩
  · intro bs b j hb hj he
    refine List.mem_flatMap.mpr ⟨b, hb, List.mem_filter.mpr ⟨?_, ?_⟩⟩
    · exact List.mem_map_of_mem (List.mem_range.mpr hj)
    · rw [he.1]
      exact decide_eq_true h.name1_ne
  · rw [filename_hostPath he]
    exact (words_iff w).mpr ⟨h.valid, hcut⟩
  · rw [filename_hostPath he, he.path_eq, decPath, decName, filenameFromHost_eq, hcut]
    show (trim w.base ++ '.' :: trim w.exten).map toUpper = pathOfWords w
    exact map_toUpper fun c hc => Or.inr (rad50_of_mem_path hc)

end QUniBone.XXDP

namespace QUniBone.Sharedfs

/-- The names that come back from the host, for both file systems -/
theorem names_return_iff (w : NameWords) :
    (RT11.NameReturns w ↔ RT11.Plain w) ∧ (XXDP.NameReturns w ↔ XXDP.Plain w) :=
  ⟨⟨RT11.NameReturns.plain, RT11.Plain.returns⟩, ⟨XXDP.NameReturns.plain, XXDP.Plain.returns⟩⟩

/-- The blank at the beginning of ` EMPTY.FIL` is gone on the host, so the words that come back are
those of `EMPTY.FIL`. -/
theorem empty_fil_renamed : (¬∀ w, RT11.NameReturns w) ∧ ¬∀ w, XXDP.NameReturns w := by
  constructor
  · intro h
    have hwords := (h ⟨0o325, 0o63471, 0o23364⟩).words .data
    exact absurd hwords (by decide)
  · intro h
    have hwords := (h ⟨0o325, 0o63471, 0o23364⟩).words ⟨0o325, 0o63471, 0o23364, 0, 0, 0, 0⟩
      nullTime ⟨rfl, rfl, rfl⟩
    exact absurd hwords (by decide)

end QUniBone.Sharedfs
