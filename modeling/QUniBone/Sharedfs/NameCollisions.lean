import QUniBone.Sharedfs.Rt11Owners
import QUniBone.Sharedfs.XxdpLayout
import QUniBone.Sharedfs.XxdpOwners

/-!
# Host files of one DEC name

Both DEC file systems map many host names to one name, and both must leave the file of another
host file alone.

* `owners_kept_iff`: over any sequence of events they do if every deletion and every change comes
  from the owner.
-/

namespace QUniBone.Sharedfs

theorem owners_kept_iff {s : RT11.Fs} {t : XXDP.Fs} (hs : s.tree.Indexed) (ht : t.tree.Indexed)
    (es : List HostEvent) :
    ((∀ c ∈ history RT11.consumeEvent s es, RT11.Kept c.before c.event c.after) ∧
        ∀ c ∈ history XXDP.consumeEvent t es, XXDP.Kept c.before c.event c.after) ↔
      (∀ c ∈ history RT11.consumeEvent s es, RT11.ByOwner c.before c.event) ∧
        ∀ c ∈ history XXDP.consumeEvent t es, XXDP.ByOwner c.before c.event :=
  and_congr (RT11.history_kept_iff hs es) (XXDP.history_kept_iff ht es)

/-! ## Two texts -/

/-- An RL02 with an empty RT-11 file system -/
def rt11Rl02 : RT11.Fs where
  blockcount := 20460
  dirSegCount := 31
  tree := .empty
  firstDirBlocknr := 6
  dirTotalSegNum := 31
  dirMaxUsedSegNr := 1
  dirEntryExtraBytes := 0
  dirFileCount := 0
  usedFileBlocks := 0
  freeBlocks := 20392

/-- An RL02 with an empty XXDP file system -/
def xxdpRl02 : XXDP.Fs :=
  .init
    { ufdBlock1 := 24, ufdBlocksNum := 146, bitmapBlock1 := 2, bitmapBlockCount := 22
      mfd1 := 1, mfd2 := none, blocksNum := 20460, preallocBlocksNum := 200, interleave := 1
      bootBlockNr := 0, monitorCoreImageStartBlockNr := 170, monitorBlockCount := 16 } 20460

example : XXDP.Fs.new .RL02 20460 = .ok xxdpRl02 := rfl

/-- A text in the shared directory. Its name is too long for a DEC file system. -/
def readme (number : Char) : HostFile where
  dir := []
  filename := ['r', 'e', 'a', 'd', 'm', 'e', number, '.', 't', 'x', 't']
  isDir := false
  data := [0x41]
  modificationTime := ⟨85, 0, 1⟩
  readonly := false

/-- Two texts come, and one of them goes. -/
def twoTexts (gone : Char) : List HostEvent :=
  [.create (readme '1'), .create (readme '2'), .delete (readme gone).path]

/-- The first text is there under the names of both. -/
theorem twoTexts_rt11 (gone : Char) : ∃ u v, history RT11.consumeEvent rt11Rl02 (twoTexts gone) =
      [⟨rt11Rl02, .create (readme '1'), u⟩, ⟨u, .create (readme '2'), v⟩,
        ⟨v, .delete (readme gone).path, RT11.deleteHostFile (readme gone).path v⟩] ∧
    RT11.streamAt v (readme '1').path = some ⟨(readme '1').path, [0x41], 0, false⟩ ∧
      RT11.streamAt v (readme '2').path = some ⟨(readme '1').path, [0x41], 0, false⟩ := by
  obtain ⟨u, v, hu, hv, hst⟩ : ∃ u v,
      RT11.consumeEvent rt11Rl02 (.create (readme '1')) = .ok () u ∧
        RT11.consumeEvent u (.create (readme '2')) = .ok () v ∧
          RT11.streamAt v (readme '1').path = some ⟨(readme '1').path, [0x41], 0, false⟩ ∧
            RT11.streamAt v (readme '2').path = some ⟨(readme '1').path, [0x41], 0, false⟩ :=
    ⟨_, _, rfl, rfl, rfl, rfl⟩
  refine ⟨u, v, ?_, hst⟩
  rw [twoTexts, history_cons hu, history_cons hv, history_cons rfl]
  rfl

theorem twoTexts_xxdp (gone : Char) : ∃ u v n, history XXDP.consumeEvent xxdpRl02 (twoTexts gone) =
      [⟨xxdpRl02, .create (readme '1'), u⟩, ⟨u, .create (readme '2'), v⟩,
        ⟨v, .delete (readme gone).path, XXDP.deleteHostFile (readme gone).path v⟩] ∧
    XXDP.fileAt v (readme '1').path = some n ∧ n.file.hostPath = (readme '1').path := by
  obtain ⟨u, v, n, hu, hv, hat⟩ : ∃ u v n,
      XXDP.consumeEvent xxdpRl02 (.create (readme '1')) = .ok () u ∧
        XXDP.consumeEvent u (.create (readme '2')) = .ok () v ∧
          XXDP.fileAt v (readme '1').path = some n ∧ n.file.hostPath = (readme '1').path :=
    ⟨_, _, _, rfl, rfl, rfl, rfl⟩
  refine ⟨u, v, n, ?_, hat⟩
  rw [twoTexts, history_cons hu, history_cons hv, history_cons rfl]
  rfl

/-- The owner's text goes, as it should. -/
theorem owners_kept_two_texts :
    (∀ c ∈ history RT11.consumeEvent rt11Rl02 (twoTexts '1'),
        RT11.Kept c.before c.event c.after) ∧
      ∀ c ∈ history XXDP.consumeEvent xxdpRl02 (twoTexts '1'),
        XXDP.Kept c.before c.event c.after := by
  refine (owners_kept_iff FileTree.empty_indexed FileTree.empty_indexed _).mpr ⟨?_, ?_⟩
  · obtain ⟨u, v, hhistory, hst, -⟩ := twoTexts_rt11 '1'
    rw [hhistory]
    simp only [List.forall_mem_cons]
    refine ⟨trivial, trivial, ?_, by simp⟩
    intro st hat
    obtain rfl := Option.some.inj (hst.symm.trans hat)
    exact ⟨fun _ => by decide, fun _ => rfl⟩
  · obtain ⟨u, v, n, hhistory, hat, howner⟩ := twoTexts_xxdp '1'
    rw [hhistory]
    simp only [List.forall_mem_cons]
    refine ⟨trivial, trivial, ?_, by simp⟩
    intro m hm
    obtain rfl := Option.some.inj (hat.symm.trans hm)
    exact ⟨fun _ => by decide, fun _ => howner⟩

/-- The text that was never taken goes, and with it the one of its DEC name. -/
theorem text_lost : ¬∀ (s : RT11.Fs) (t : XXDP.Fs) (es : List HostEvent), s.tree.Indexed →
    t.tree.Indexed → (∀ c ∈ history RT11.consumeEvent s es, RT11.Kept c.before c.event c.after) ∧
      ∀ c ∈ history XXDP.consumeEvent t es, XXDP.Kept c.before c.event c.after := by
  intro h
  obtain ⟨hrt11, -⟩ := h rt11Rl02 xxdpRl02 (twoTexts '2') FileTree.empty_indexed FileTree.empty_indexed
  obtain ⟨u, v, hhistory, -, hst⟩ := twoTexts_rt11 '2'
  rw [hhistory] at hrt11
  simp only [List.forall_mem_cons] at hrt11
  have hkept := hrt11.2.2.1.undisturbed _ _ hst (by decide)
  have hindexed : v.tree.Indexed := by
    have hmem : (⟨v, .delete (readme '2').path, RT11.deleteHostFile (readme '2').path v⟩ :
        Change RT11.Fs) ∈ history RT11.consumeEvent rt11Rl02 (twoTexts '2') := by
      rw [hhistory]
      simp
    exact (history_before RT11.consumeEvent_indexed
      (show rt11Rl02.tree.Indexed from FileTree.empty_indexed) hmem).1
  have hgone := (RT11.streamAt_deleteHostFile hindexed hst (by decide) (readme '2').path).1
    ⟨RT11.dir_of_streamAt hst, rfl, rfl⟩
  rw [hgone] at hkept
  contradiction

end QUniBone.Sharedfs
