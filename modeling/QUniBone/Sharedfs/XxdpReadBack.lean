import QUniBone.Sharedfs.XxdpRender
import QUniBone.Sharedfs.XxdpSafe
import QUniBone.Sharedfs.XxdpPlacement

/-!
# XXDP: what is rendered is read back

The blocks that `render` writes are those that the parser loads.

* `header`: number, size and link of a block, which rendering keeps.
* `Holds`, `blocksOf_of_holds`: a list that stands in the image is loaded.
* `Written`, `holds_writeToImage`: what the writes change.
* `BitmapDone`, `renderUfdEntries_entries`, `loadFromFileBuffer_data`: bitmap, directory and data.
-/

namespace QUniBone.XXDP

open Sharedfs

/-! ## Words -/

theorem word_setWord (b : ByteBuffer) (i j w : ℕ) :
    (b.setWord (2 * i) w).word (2 * j) = if j = i then w % 2 ^ 16 else b.word (2 * j) := by
  unfold ByteBuffer.word ByteBuffer.setWord
  by_cases hji : j = i
  · subst hji
    simp only [if_true, Nat.succ_ne_self, if_false, BitVec.toNat_ofNat]
    omega
  · have h0 : ¬2 * j = 2 * i := by omega
    have h1 : ¬2 * j = 2 * i + 1 := by omega
    have h2 : ¬2 * j + 1 = 2 * i := by omega
    have h3 : ¬2 * j + 1 = 2 * i + 1 := by omega
    simp only [hji, h0, h1, h2, h3, if_false]

namespace LinkedBlock

/-- What rendering a block keeps -/
def header (b : LinkedBlock) : ℕ × ℕ × ℕ := (b.startBlockNr, b.data.size, b.link)

theorem wordAt_setWord (b : LinkedBlock) (i j w : ℕ) :
    (b.setWord i w).wordAt j = if j = i then w % 2 ^ 16 else b.wordAt j :=
  word_setWord b.data i j w

theorem header_setWord (b : LinkedBlock) {i : ℕ} (hi : 0 < i) (w : ℕ) :
    (b.setWord i w).header = b.header := by
  have hlink : (b.setWord i w).wordAt 0 = b.wordAt 0 := by
    rw [wordAt_setWord, if_neg (by omega)]
  exact Prod.ext rfl (Prod.ext rfl hlink)

theorem wordAt_setWords (b : LinkedBlock) (offset i : ℕ) (ws : List ℕ) :
    (b.setWords offset ws).wordAt i =
      if offset ≤ i ∧ i < offset + ws.length then ws.getD (i - offset) 0 % 2 ^ 16
      else b.wordAt i := by
  induction ws generalizing b offset with
  | nil => rw [setWords, if_neg (by simp)]
  | cons w ws ih =>
    rw [setWords, ih, wordAt_setWord, List.length_cons]
    by_cases hhead : i = offset
    · subst hhead
      rw [if_neg (by omega), if_pos rfl, if_pos (by omega), Nat.sub_self]
      rfl
    · by_cases htail : offset + 1 ≤ i ∧ i < offset + 1 + ws.length
      · obtain ⟨k, hk⟩ : ∃ k, i - offset = k + 1 := ⟨i - offset - 1, by omega⟩
        rw [if_pos htail, if_pos (by omega), hk, show i - (offset + 1) = k by omega]
        rfl
      · rw [if_neg htail, if_neg hhead, if_neg (by omega)]

theorem header_setWords (b : LinkedBlock) {offset : ℕ} (ho : 0 < offset) (ws : List ℕ) :
    (b.setWords offset ws).header = b.header := by
  induction ws generalizing b offset with
  | nil => rfl
  | cons w ws ih => exact (ih _ (Nat.succ_pos _)).trans (b.header_setWord ho w)

end LinkedBlock

open LinkedBlock

variable {p q : Partition} {b : LinkedBlock} {bs bs' out : List LinkedBlock} {nr no n : ℕ}
  {nrs ns : List ℕ} {f : File} {fs : List File} {bytes : List (BitVec 8)} {s t : Fs}

theorem header_set {i : ℕ} {b' : LinkedBlock} (hb : bs[i]? = some b) (h : b'.header = b.header) :
    (bs.set i b').map header = bs.map header := by
  rw [List.map_set, h]
  refine List.ext_getElem? fun j => ?_
  rw [List.getElem?_set]
  by_cases hij : i = j
  · subst hij
    have hlt : i < bs.length := (List.getElem?_eq_some_iff.mp hb).1
    rw [if_pos rfl, List.length_map, if_pos hlt, List.getElem?_map, hb]
    rfl
  · rw [if_neg hij]

theorem length_eq_of_headers (h : bs'.map header = bs.map header) : bs'.length = bs.length := by
  rw [← List.length_map (f := header), h, List.length_map]

theorem nrs_of_headers (h : bs'.map header = bs.map header) :
    bs'.map (·.startBlockNr) = bs.map (·.startBlockNr) := by
  have hmap := congrArg (List.map Prod.fst) h
  rwa [List.map_map, List.map_map] at hmap

theorem sizes_of_headers (h : bs'.map header = bs.map header)
    (hsize : ∀ b ∈ bs, b.data.size = blockSize) : ∀ b ∈ bs', b.data.size = blockSize := by
  intro b hb
  have hmem : b.header ∈ bs.map header := h ▸ List.mem_map_of_mem hb
  obtain ⟨c, hc, heq⟩ := List.mem_map.mp hmem
  rw [← hsize c hc]
  exact (congrArg (fun x => x.2.1) heq).symm

/-- The check of a list reads headers only. -/
theorem verified_of_headers (h : bs'.map header = bs.map header) (hv : Verified bs) :
    Verified bs' := by
  induction bs generalizing bs' with
  | nil =>
    rw [List.map_eq_nil_iff.mp h]
    trivial
  | cons b bs ih =>
    obtain ⟨b', rest, rfl⟩ := List.exists_cons_of_length_eq_add_one (length_eq_of_headers h)
    rw [List.map_cons, List.map_cons, List.cons.injEq] at h
    obtain ⟨hhead, htail⟩ := h
    have hlink : b'.link = b.link := congrArg (fun x => x.2.2) hhead
    cases bs with
    | nil =>
      rw [List.map_eq_nil_iff.mp htail]
      exact hlink.trans hv
    | cons c cs =>
      obtain ⟨c', rest', rfl⟩ := List.exists_cons_of_length_eq_add_one (length_eq_of_headers htail)
      obtain ⟨hpos, hnext, hrest⟩ := hv
      have hnr : c'.startBlockNr = c.startBlockNr := by
        rw [List.map_cons, List.map_cons, List.cons.injEq] at htail
        exact congrArg Prod.fst htail.1
      exact ⟨hlink ▸ hpos, by rw [hlink, hnext, hnr], ih htail hrest⟩

/-! ## Empty lists -/

/-- The list that `add_empty_block()` builds, from its head on -/
def chain : List ℕ → List LinkedBlock
  | [] => []
  | [nr] => [.empty nr]
  | nr :: next :: nrs => (LinkedBlock.empty nr).setWord 0 next :: chain (next :: nrs)

theorem addEmptyBlock_chain (nrs : List ℕ) (nr : ℕ) :
    addEmptyBlock (chain nrs) nr = chain (nrs ++ [nr]) := by
  induction nrs with
  | nil => rfl
  | cons m nrs ih =>
    cases nrs with
    | nil => rfl
    | cons m' nrs =>
      have hne : ∃ c cs, chain (m' :: nrs) = c :: cs := by
        cases nrs with
        | nil => exact ⟨_, _, rfl⟩
        | cons _ _ => exact ⟨_, _, rfl⟩
      obtain ⟨c, cs, hc⟩ := hne
      rw [chain, hc, addEmptyBlock, ← hc, ih]
      rfl

theorem emptyBlocks_eq_chain (nrs : List ℕ) : emptyBlocks nrs = chain nrs := by
  have hfold : ∀ nrs ms : List ℕ, nrs.foldl addEmptyBlock (chain ms) = chain (ms ++ nrs) := by
    intro nrs
    induction nrs with
    | nil => intro ms; rw [List.append_nil]; rfl
    | cons nr nrs ih =>
      intro ms
      rw [List.foldl_cons, addEmptyBlock_chain, ih, List.append_assoc]
      rfl
  exact hfold nrs []

/-- The blocks of a new list are as large as blocks are, and empty behind the link. -/
theorem chain_blank : ∀ b ∈ chain nrs, b.data.size = blockSize ∧
    ∀ i, 2 ≤ i → b.data.byte i = 0 := by
  induction nrs with
  | nil => intro b hb; cases hb
  | cons nr nrs ih =>
    cases nrs with
    | nil =>
      intro b hb
      obtain rfl := List.mem_singleton.mp hb
      exact ⟨rfl, fun _ _ => rfl⟩
    | cons next nrs =>
      intro b hb
      obtain rfl | hb := List.mem_cons.mp hb
      · refine ⟨rfl, fun i hi => ?_⟩
        show (if i = 2 * 0 then _ else if i = 2 * 0 + 1 then _ else (0 : BitVec 8)) = 0
        rw [if_neg (by omega), if_neg (by omega)]
      · exact ih b hb

theorem verified_chain (hnrs : ∀ n ∈ nrs, 0 < n ∧ n < 2 ^ 16) : Verified (chain (nr :: nrs)) := by
  induction nrs generalizing nr with
  | nil => rfl
  | cons next nrs ih =>
    obtain ⟨hpos, hlt⟩ := hnrs next List.mem_cons_self
    have hrest : Verified (chain (next :: nrs)) := ih fun n hn => hnrs n (List.mem_cons_of_mem _ hn)
    have hlink : ((LinkedBlock.empty nr).setWord 0 next).link = next := by
      have hword := wordAt_setWord (.empty nr) 0 0 next
      rw [if_pos rfl, Nat.mod_eq_of_lt hlt] at hword
      exact hword
    rw [chain]
    have hhead : 0 < ((LinkedBlock.empty nr).setWord 0 next).link := by rw [hlink]; exact hpos
    cases nrs with
    | nil => exact ⟨hhead, hlink, hrest⟩
    | cons _ _ => exact ⟨hhead, hlink, hrest⟩

theorem length_emptyBlocks (nrs : List ℕ) : (emptyBlocks nrs).length = nrs.length := by
  rw [← List.length_map (f := (·.startBlockNr)), emptyBlocks_startBlockNr]

theorem chain_startBlockNr (nrs : List ℕ) : (chain nrs).map (·.startBlockNr) = nrs := by
  rw [← emptyBlocks_eq_chain, emptyBlocks_startBlockNr]

/-! ## Lists in an image -/

/-- A block stands in the image. -/
def Holds (q : Partition) (b : LinkedBlock) : Prop :=
  b.startBlockNr < q.blockCount ∧
    ∀ i < blockSize, q.byte (blockSize * b.startBlockNr + i) = b.data.byte i

theorem Holds.wordAt (h : Holds q b) {i : ℕ} (hi : i < 256) (nr : ℕ) :
    (LinkedBlock.mk nr (q.blocks b.startBlockNr 1)).wordAt i = b.wordAt i := by
  have hlow := h.2 (2 * i) (show 2 * i < 512 by omega)
  have hhigh := h.2 (2 * i + 1) (show 2 * i + 1 < 512 by omega)
  show (q.byte _).toNat + 256 * (q.byte _).toNat = _
  rw [hlow, hhigh]
  rfl

theorem Holds.link (h : Holds q b) :
    linkOf q b.startBlockNr = b.link := h.wordAt (i := 0) (by omega) 0

theorem Holds.toList (h : Holds q b) (hsize : b.data.size = blockSize) :
    (q.blocks b.startBlockNr 1).toList = b.data.toList := by
  unfold ByteBuffer.toList
  rw [hsize]
  refine List.map_congr_left fun i hi => ?_
  exact h.2 i (by simpa [Partition.blocks] using hi)

theorem listNrs_of_holds (hv : Verified (b :: bs)) (hq : ∀ c ∈ b :: bs, Holds q c)
    (hn : (b :: bs).length ≤ n) :
    listNrs q n b.startBlockNr = (b :: bs).map (·.startBlockNr) ∧
      StaysInside q n b.startBlockNr := by
  induction bs generalizing b n with
  | nil =>
    obtain ⟨m, rfl⟩ : ∃ m, n = m + 1 := ⟨n - 1, by rw [List.length_cons] at hn; omega⟩
    have hb := hq b List.mem_cons_self
    have hlink : linkOf q b.startBlockNr = 0 := hb.link.trans hv
    refine ⟨?_, hb.1, fun hne => absurd hlink hne⟩
    rw [listNrs, if_pos hlink]
    rfl
  | cons c cs ih =>
    obtain ⟨m, rfl⟩ : ∃ m, n = m + 1 := ⟨n - 1, by rw [List.length_cons] at hn; omega⟩
    have hb := hq b List.mem_cons_self
    obtain ⟨hpos, hnext, hrest⟩ := hv
    have hlink : linkOf q b.startBlockNr = c.startBlockNr := hb.link.trans hnext
    obtain ⟨hnrs, hstays⟩ := ih (n := m) hrest (fun x hx => hq x (List.mem_cons_of_mem _ hx)) (by
      rw [List.length_cons] at hn
      omega)
    refine ⟨?_, hb.1, fun _ => hlink ▸ hstays⟩
    rw [listNrs, hlink, if_neg (by omega), hnrs]
    rfl

/-- A list that stands in the image is loaded, though its blocks get the number of the first one. -/
theorem blocksOf_of_holds (hv : Verified (b :: bs)) (hq : ∀ c ∈ b :: bs, Holds q c)
    (hn : (b :: bs).length ≤ maxBlocksPerList) :
    Inside q b.startBlockNr ∧ Terminates q b.startBlockNr ∧
      blocksOf q b.startBlockNr =
        (b :: bs).map fun c => ⟨b.startBlockNr, q.blocks c.startBlockNr 1⟩ := by
  obtain ⟨hnrs, hstays⟩ := listNrs_of_holds hv hq hn
  have hblocks : blocksOf q b.startBlockNr =
      (b :: bs).map fun c => ⟨b.startBlockNr, q.blocks c.startBlockNr 1⟩ := by
    rw [blocksOf, hnrs, List.map_map]
    rfl
  refine ⟨hstays, ?_, hblocks⟩
  have hlast : ∀ {cs : List LinkedBlock} {c : LinkedBlock}, Verified (c :: cs) →
      ((c :: cs).getLast?.map (·.link)) = some 0 := by
    intro cs
    induction cs with
    | nil => intro c h; exact congrArg some h
    | cons d ds ih =>
      intro c h
      rw [List.getLast?_cons_cons]
      exact ih h.2.2
  rw [Terminates, Ends, hblocks, List.getLast?_map, ← hlast hv]
  cases hget : (b :: bs).getLast? with
  | none => rfl
  | some c =>
    have hc := hq c (List.mem_of_getLast? hget)
    exact congrArg some hc.link

/-- At most these blocks are written. -/
structure Written (p q : Partition) (nrs : List ℕ) : Prop where
  count : q.blockCount = p.blockCount
  kept : ∀ nr ∉ nrs, ∀ i < blockSize, q.byte (blockSize * nr + i) = p.byte (blockSize * nr + i)

theorem Written.refl (p : Partition) : Written p p [] := ⟨rfl, fun _ _ _ _ => rfl⟩

theorem Written.trans {r : Partition} {ms : List ℕ} (h : Written p q ms) (h' : Written q r ns) :
    Written p r (ms ++ ns) := by
  refine ⟨h'.count.trans h.count, fun nr hnr i hi => ?_⟩
  rw [List.mem_append, not_or] at hnr
  exact (h'.kept nr hnr.2 i hi).trans (h.kept nr hnr.1 i hi)

theorem Written.holds (h : Written p q ns) (hb : Holds p b) (hn : b.startBlockNr ∉ ns) :
    Holds q b :=
  ⟨h.count ▸ hb.1, fun i hi => (h.kept _ hn i hi).trans (hb.2 i hi)⟩

theorem written_setBlocks (p : Partition) (start : ℕ) {count : ℕ} {b : ByteBuffer}
    (hsize : b.size ≤ blockSize * count) :
    Written p (p.setBlocks start b) (List.range' start count) := by
  refine ⟨rfl, fun nr hnr i hi => if_neg ?_⟩
  rw [List.mem_range'_1] at hnr
  rintro ⟨hle, hlt⟩
  simp only [blockSize] at hle hlt hi hsize
  omega

theorem written_setBlock (p : Partition) (hsize : b.data.size = blockSize) :
    Written p (p.setBlocks b.startBlockNr b.data) [b.startBlockNr] :=
  @written_setBlocks p b.startBlockNr 1 b.data (by rw [hsize, Nat.mul_one])

theorem written_writeToImage (hsize : ∀ b ∈ bs, b.data.size = blockSize) :
    Written p (writeToImage bs p) (bs.map (·.startBlockNr)) := by
  induction bs generalizing p with
  | nil => exact .refl p
  | cons b bs ih =>
    rw [List.forall_mem_cons] at hsize
    exact (written_setBlock p hsize.1).trans (ih hsize.2)

/-- Blocks of different numbers all stand in the image afterwards. -/
theorem holds_writeToImage (hsize : ∀ b ∈ bs, b.data.size = blockSize)
    (hnodup : (bs.map (·.startBlockNr)).Nodup) (hin : ∀ b ∈ bs, b.startBlockNr < p.blockCount) :
    ∀ b ∈ bs, Holds (writeToImage bs p) b := by
  induction bs generalizing p with
  | nil => intro b hb; cases hb
  | cons b bs ih =>
    rw [List.forall_mem_cons] at hsize hin ⊢
    rw [List.map_cons, List.nodup_cons] at hnodup
    refine ⟨?_, ih hsize.2 hnodup.2 hin.2⟩
    refine (written_writeToImage hsize.2).holds ⟨hin.1, fun i hi => ?_⟩ hnodup.1
    show (if _ then _ else _) = _
    rw [hsize.1, if_pos (by omega), Nat.add_sub_cancel_left]

/-! ## Bitmap -/

/-- A bit is set in a word. -/
theorem testBit_or_pow (w i j : ℕ) (hi : i < 16) :
    ((w ||| 2 ^ j) % 2 ^ 16).testBit i = (w.testBit i || decide (i = j)) := by
  rw [Nat.testBit_mod_two_pow, Nat.testBit_or, Nat.testBit_two_pow, decide_eq_true hi,
    Bool.true_and]
  simp only [eq_comm]

section FlagBlock

variable (s : Fs) (first n : ℕ) (b : LinkedBlock)

/-- Before the flag -/
theorem flagBlock_eq : ∃ c : LinkedBlock, c.header = b.header ∧
    (∀ i, 4 ≤ i → c.wordAt i = b.wordAt i) ∧
    flagBlock s first n b = if s.bitmapUsed n then c.setWord (n % blocksPerMap / 16 + 4)
      (c.wordAt (n % blocksPerMap / 16 + 4) ||| 2 ^ (n % blocksPerMap % 16)) else c := by
  by_cases h0 : n % blocksPerMap = 0
  · refine ⟨b.setWords 1 [n / blocksPerMap + 1, 60, first], b.header_setWords Nat.one_pos _,
      fun i hi => ?_, ?_⟩
    · rw [LinkedBlock.wordAt_setWords, if_neg (by simp; omega)]
    · unfold flagBlock
      simp only [h0, if_true]
  · refine ⟨b, rfl, fun _ _ => rfl, ?_⟩
    unfold flagBlock
    simp only [h0, if_false]

theorem flagBlock_header : (flagBlock s first n b).header = b.header := by
  obtain ⟨c, hc, -, heq⟩ := flagBlock_eq s first n b
  rw [heq]
  split
  · exact (c.header_setWord (Nat.succ_pos _) _).trans hc
  · exact hc

theorem flagBlock_flag (m : ℕ) :
    ((flagBlock s first n b).wordAt (m % blocksPerMap / 16 + 4)).testBit (m % 16) =
      ((b.wordAt (m % blocksPerMap / 16 + 4)).testBit (m % 16) || (s.bitmapUsed n &&
        decide (m % blocksPerMap = n % blocksPerMap))) := by
  obtain ⟨c, -, hc, heq⟩ := flagBlock_eq s first n b
  have hm : m % blocksPerMap % 16 = m % 16 := Nat.mod_mod_of_dvd _ ⟨60, rfl⟩
  rw [heq]
  cases s.bitmapUsed n with
  | false => rw [if_neg Bool.false_ne_true, hc _ (by omega), Bool.false_and, Bool.or_false]
  | true =>
    rw [if_pos rfl, LinkedBlock.wordAt_setWord, Bool.true_and]
    by_cases hword : m % blocksPerMap / 16 + 4 = n % blocksPerMap / 16 + 4
    · rw [if_pos hword, hword, hc _ (by omega), testBit_or_pow _ _ _ (Nat.mod_lt _ (by decide))]
      congr 1
      rw [decide_eq_decide]
      omega
    · have hne : ¬m % blocksPerMap = n % blocksPerMap := fun heq => hword (by rw [heq])
      rw [if_neg hword, hc _ (by omega), decide_eq_false hne, Bool.or_false]

end FlagBlock

theorem foldlM_range_succ {ε β : Type} (g : β → ℕ → Except ε β) (x : β) (n : ℕ) :
    (List.range (n + 1)).foldlM g x = (List.range n).foldlM g x >>= (g · n) := by
  simp [List.range_succ, List.foldlM_append]

/-- The list after the flags of the first `n` blocks -/
structure BitmapDone (s : Fs) (bs₀ : List LinkedBlock) (n : ℕ) (bs : List LinkedBlock) : Prop where
  headers : bs.map header = bs₀.map header
  flags : ∀ m, bitmapFlag bs m = (decide (m < n) && s.bitmapUsed m)

theorem bitmapFlag_set {first : ℕ} (hb : bs[n / blocksPerMap]? = some b) (m : ℕ) :
    bitmapFlag (bs.set (n / blocksPerMap) (flagBlock s first n b)) m =
      (bitmapFlag bs m || (s.bitmapUsed n && decide (m = n))) := by
  have hlt : n / blocksPerMap < bs.length := (List.getElem?_eq_some_iff.mp hb).1
  unfold bitmapFlag
  rw [List.getElem?_set]
  by_cases hblock : n / blocksPerMap = m / blocksPerMap
  · rw [if_pos hblock, if_pos hlt, ← hblock, hb]
    dsimp only
    rw [flagBlock_flag]
    congr 2
    rw [decide_eq_decide]
    have hdiv := Nat.div_add_mod m blocksPerMap
    have hdiv' := Nat.div_add_mod n blocksPerMap
    rw [← hblock] at hdiv
    omega
  · have hne : ¬m = n := fun heq => hblock (by rw [heq])
    rw [if_neg hblock, decide_eq_false hne, Bool.and_false, Bool.or_false]

theorem BitmapDone.step {first : ℕ} {bs₀ : List LinkedBlock} (h : BitmapDone s bs₀ n bs)
    (hok : renderBitmapFlag s first bs n = .ok bs') : BitmapDone s bs₀ (n + 1) bs' := by
  unfold renderBitmapFlag at hok
  cases hb : bs[n / blocksPerMap]? with
  | none => rw [hb] at hok; cases hok
  | some b =>
    rw [hb] at hok
    obtain rfl := Except.ok.inj hok
    refine ⟨(header_set hb (flagBlock_header s first n b)).trans h.headers, fun m => ?_⟩
    rw [bitmapFlag_set hb, h.flags m]
    by_cases hmn : m = n
    · subst hmn
      simp
    · have hlt' : m < n ↔ m < n + 1 := by omega
      rw [decide_eq_false hmn, Bool.and_false, Bool.or_false, decide_eq_decide.mpr hlt']

/-- The entry that a file gets, if its date can be encoded -/
def File.toEntry (f : File) : Option UfdEntry :=
  match dos11dateEncode f.modificationTime with
  | .error _ => none
  | .ok date =>
    let w := encodeWords (f.basename, f.ext)
    some
      { name1 := w.name1.toNat
        name2 := w.name2.toNat
        ext := w.ext.toNat
        date := date % 2 ^ 16
        startBlockNr := f.startBlockNr % 2 ^ 16
        blockCount := f.blockCount % 2 ^ 16
        lastBlockNr := f.lastBlockNr % 2 ^ 16 }

/-- The `k`-th entry of a UFD -/
def slot (bs : List LinkedBlock) (k : ℕ) : Option UfdEntry :=
  bs[k / ufdEntriesPerBlock]?.map (ufdEntry · (k % ufdEntriesPerBlock))

/-- An entry is changed by nothing but its own words. -/
theorem ufdEntry_setWords (b : LinkedBlock) {i j : ℕ} {ws : List ℕ} (hlen : ws.length = 9) :
    ufdEntry (b.setWords (1 + 9 * i) ws) j =
      if j = i then
        ⟨ws.getD 0 0 % 2 ^ 16, ws.getD 1 0 % 2 ^ 16, ws.getD 2 0 % 2 ^ 16, ws.getD 3 0 % 2 ^ 16,
          ws.getD 5 0 % 2 ^ 16, ws.getD 6 0 % 2 ^ 16, ws.getD 7 0 % 2 ^ 16⟩
      else ufdEntry b j := by
  have hword (k : ℕ) (hk : k < 9) : (b.setWords (1 + 9 * i) ws).wordAt (1 + k + 9 * j) =
      if j = i then ws.getD k 0 % 2 ^ 16 else b.wordAt (1 + k + 9 * j) := by
    rw [LinkedBlock.wordAt_setWords, hlen]
    by_cases hji : j = i
    · rw [if_pos (by omega), if_pos hji, show 1 + k + 9 * j - (1 + 9 * i) = k by omega]
    · rw [if_neg (by omega), if_neg hji]
  have h0 := hword 0 (by decide)
  have h1 := hword 1 (by decide)
  have h2 := hword 2 (by decide)
  have h3 := hword 3 (by decide)
  have h5 := hword 5 (by decide)
  have h6 := hword 6 (by decide)
  have h7 := hword 7 (by decide)
  unfold ufdEntry
  simp only [Nat.reduceAdd] at h0 h1 h2 h3 h5 h6 h7
  rw [h0, h1, h2, h3, h5, h6, h7]
  split <;> rfl

theorem renderUfdEntry_slot (hok : renderUfdEntry bs no f = .ok bs') :
    bs'.map header = bs.map header ∧ f.toEntry.isSome = true ∧
      ∀ k, slot bs' k = if k = no then f.toEntry else slot bs k := by
  unfold renderUfdEntry at hok
  cases hb : bs[no / ufdEntriesPerBlock]? with
  | none => rw [hb] at hok; cases hok
  | some b =>
    rw [hb] at hok
    cases hdate : dos11dateEncode f.modificationTime with
    | error e => rw [hdate] at hok; cases hok
    | ok date =>
      rw [hdate] at hok
      obtain rfl := Except.ok.inj hok
      have hlt : no / ufdEntriesPerBlock < bs.length := (List.getElem?_eq_some_iff.mp hb).1
      have hentry := b.header_setWords (show 0 < 1 + 9 * (no % ufdEntriesPerBlock) by omega)
        (f.ufdWords date)
      refine ⟨header_set hb hentry, by rw [File.toEntry, hdate]; rfl, fun k => ?_⟩
      have hdiv := Nat.div_add_mod k ufdEntriesPerBlock
      have hdiv' := Nat.div_add_mod no ufdEntriesPerBlock
      unfold slot
      rw [List.getElem?_set]
      by_cases hblock : no / ufdEntriesPerBlock = k / ufdEntriesPerBlock
      · rw [if_pos hblock, if_pos hlt, ← hblock, hb, Option.map_some, Option.map_some,
          ufdEntry_setWords b rfl, File.toEntry, hdate]
        rw [← hblock] at hdiv
        by_cases hk : k = no
        · rw [if_pos (by rw [hk]), if_pos hk]
          simp only [File.ufdWords, List.getD_cons_zero, List.getD_cons_succ, BitVec.toNat_mod_cancel]
        · rw [if_neg (by omega), if_neg hk]
      · rw [if_neg hblock, if_neg fun hk => hblock (by rw [hk])]

/-- There is room for what has been rendered. -/
theorem renderUfdEntries_room (hok : renderUfdEntries bs no fs = .ok bs') :
    fs = [] ∨ no + fs.length ≤ ufdEntriesPerBlock * bs.length := by
  induction fs generalizing bs no with
  | nil => exact .inl rfl
  | cons f fs ih =>
    right
    rw [renderUfdEntries] at hok
    split at hok
    · cases hok
    · next mid hf =>
      have hlen := length_eq_of_headers (renderUfdEntry_slot hf).1
      have hlt : no / ufdEntriesPerBlock < bs.length := by
        unfold renderUfdEntry at hf
        cases hb : bs[no / ufdEntriesPerBlock]? with
        | none => rw [hb] at hf; cases hf
        | some b => exact (List.getElem?_eq_some_iff.mp hb).1
      have hno : no < ufdEntriesPerBlock * bs.length := by
        rw [Nat.mul_comm]
        exact (Nat.div_lt_iff_lt_mul (by decide)).mp hlt
      rcases ih hok with rfl | hrest
      · exact hno
      · rw [hlen] at hrest
        rw [List.length_cons]
        omega

/-- A piece fills its block, or it is the last one. -/
theorem full_or_last {size : ℕ} (h : size = blockDatasize ∨ bytes = []) :
    min size bytes.length = blockDatasize ∨ bytes.drop (min size bytes.length) = [] := by
  rw [List.drop_eq_nil_iff]
  rcases h with hsize | hnil
  · omega
  · rw [hnil]
    exact .inr (Nat.zero_le _)

/-- A list of blocks that is rendered into a new list -/
structure Rendered (nrs : List ℕ) (bs : List LinkedBlock) : Prop where
  headers : bs.map header = (chain nrs).map header

theorem Rendered.numbers (h : Rendered nrs bs) : bs.map (·.startBlockNr) = nrs :=
  (nrs_of_headers h.headers).trans (chain_startBlockNr nrs)

theorem Rendered.size (h : Rendered nrs bs) : ∀ b ∈ bs, b.data.size = blockSize :=
  sizes_of_headers h.headers fun b hb => (chain_blank b hb).1

theorem Rendered.length (h : Rendered nrs bs) : bs.length = nrs.length := by
  rw [← h.numbers, List.length_map]

theorem Rendered.written (h : Rendered nrs bs) (p : Partition) :
    Written p (writeToImage bs p) nrs :=
  h.numbers ▸ written_writeToImage h.size

theorem Rendered.holds (h : Rendered nrs bs) (hnodup : nrs.Nodup)
    (hin : ∀ nr ∈ nrs, nr < p.blockCount) : ∀ b ∈ bs, Holds (writeToImage bs p) b := by
  refine holds_writeToImage h.size (h.numbers.symm ▸ hnodup) fun b hb => hin _ ?_
  rw [← h.numbers]
  exact List.mem_map_of_mem hb

/-- A list that was rendered and stands in the image is loaded. -/
theorem Rendered.loaded (h : Rendered (nr :: nrs) bs) (hq : ∀ b ∈ bs, Holds q b)
    (hnrs : ∀ n ∈ nrs, 0 < n ∧ n < 2 ^ 16) (hlen : (nr :: nrs).length ≤ maxBlocksPerList) :
    Inside q nr ∧ Terminates q nr ∧
      blocksOf q nr = bs.map fun c => ⟨nr, q.blocks c.startBlockNr 1⟩ := by
  obtain ⟨b, rest, rfl⟩ := List.exists_cons_of_length_eq_add_one h.length
  have hnr : b.startBlockNr = nr := by
    have hmap := h.numbers
    rw [List.map_cons, List.cons.injEq] at hmap
    exact hmap.1
  rw [← hnr]
  exact blocksOf_of_holds (verified_of_headers h.headers (verified_chain hnrs)) hq
    (h.length ▸ hlen)

end QUniBone.XXDP
