import Cubiboot.Disc.Descriptors
import Cubiboot.Games.BannerRing

/-!
# A game in the background

One pass of the loop of `gm_warm_files`, for a game: `get_game_info` looks into the file,
and `gmWarmFile` closes it, with its banner in the cache.  Here is what the two come to
together.

Results: `gmWarmFile_passed`, `gmWarmFile_found` and `gmWarmFile_read`, the cache after a
file without a banner, after one whose banner is there already, and after one whose
banner is read; `gmWarmFile_others`, that the entries of the menu and its pools are not
written; and `gameWarmed`, which puts them together as `GameWarmed`, a step from what the
walk shares with `gm_check_files` to the same after the game.
-/

namespace Cubiboot
namespace Browsing

open CopyRange Disc Games

/-- What the calls for one game come to: those of `get_game_info`, and the last read. -/
structure GameCalls where
  file : DeviceFile
  read : ThreadedRead

/-- A game that the loop comes to. -/
structure WalkGame where
  path : Path
  calls : GameCalls

/-- `get_game_info` finds a game with a banner. -/
def HasBanner (bnrOffsets : BnrOffsets) (f : DeviceFile) (b : InfoBuffers) : Prop :=
  (Disc.getGameInfo bnrOffsets f b true).info.valid = true ∧
    (Disc.getGameInfo bnrOffsets f b true).info.bnrOffset ≠ 0

/-- `banner_buffer` after the read of a banner; bytes that do not arrive are as before. -/
def readBanner (gm : GmState) (path : Path) (offset : Nat) (r : ThreadedRead) : Nat → BnrByte :=
  copyRange gm.bannerBuffer 0 (min r.got sizeofBnr) (readBytes (some path) offset r)

/-- The buffers of `get_game_info`, and the variables of the game list. -/
structure WarmState where
  buffers : InfoBuffers
  gm : GmState

/--
The file of a game is looked into, and a banner that is not in the cache is read from it
and put there.
-/
structure GameWarmed (bnrOffsets : BnrOffsets) (s : WarmState) (g : WalkGame) (s' : WarmState) :
    Prop where
  examined : s'.buffers = (Disc.getGameInfo bnrOffsets g.calls.file s.buffers true).buffers
  passed : ¬ HasBanner bnrOffsets g.calls.file s.buffers → s'.gm.bnrCache = s.gm.bnrCache
  found : s.gm.bnrCache.lookup (gmBnrCacheKey g.path) ≠ none → s'.gm.bnrCache = s.gm.bnrCache
  read : HasBanner bnrOffsets g.calls.file s.buffers →
    s.gm.bnrCache.lookup (gmBnrCacheKey g.path) = none →
      s'.gm.bnrCache = bnrCachePut s.gm.bnrCache (gmBnrCacheKey g.path)
        (readBanner s.gm g.path
          (Disc.getGameInfo bnrOffsets g.calls.file s.buffers true).info.bnrOffset g.calls.read)
  cached : HasBanner bnrOffsets g.calls.file s.buffers →
    s'.gm.bnrCache.lookup (gmBnrCacheKey g.path) ≠ none
  /-- The menu is live: nothing that it looks at is written. -/
  others : s'.gm = { s.gm with
    descriptor := s'.gm.descriptor
    bannerBuffer := s'.gm.bannerBuffer
    bnrCache := s'.gm.bnrCache }

variable {bnrOffsets : BnrOffsets} {gm : GmState} {path : Path} {o : FileOutcome}

theorem gmWarmFile_passed (h : ¬ (o.info.valid = true ∧ o.info.bnrOffset ≠ 0)) :
    (gmWarmFile gm path o).bnrCache = gm.bnrCache := by
  by_cases hvalid : o.info.valid = true
  · have hzero : o.info.bnrOffset = 0 := not_not.1 fun hne => h ⟨hvalid, hne⟩
    simp only [gmWarmFile, Games.getGameInfo, if_pos hvalid, if_pos hzero, dvdCustomClose,
      dvdCustomOpen]
  · rw [gmWarmFile, if_neg hvalid]

theorem gmWarmFile_found (h : gm.bnrCache.lookup (gmBnrCacheKey path) ≠ none) :
    (gmWarmFile gm path o).bnrCache = gm.bnrCache := by
  by_cases hbanner : o.info.valid = true ∧ o.info.bnrOffset ≠ 0
  · obtain ⟨i, hi⟩ := Option.ne_none_iff_exists'.1 h
    simp only [gmWarmFile, Games.getGameInfo, if_pos hbanner.1, if_neg hbanner.2, bnrCacheGet,
      dvdCustomOpen, hi, Option.map_some, dvdCustomClose]
  · exact gmWarmFile_passed hbanner

theorem gmWarmFile_read (hvalid : o.info.valid = true) (hoffset : o.info.bnrOffset ≠ 0)
    (h : gm.bnrCache.lookup (gmBnrCacheKey path) = none) :
    (gmWarmFile gm path o).bnrCache =
      bnrCachePut gm.bnrCache (gmBnrCacheKey path)
        (readBanner gm path o.info.bnrOffset o.read) := by
  simp only [gmWarmFile, Games.getGameInfo, if_pos hvalid, if_neg hoffset, bnrCacheGet,
    dvdCustomOpen, h, Option.map_none, dvdThreadedRead, dvdCustomClose, Function.update_self,
    readBanner]

theorem gmWarmFile_others :
    gmWarmFile gm path o =
      { gm with
        descriptor := (gmWarmFile gm path o).descriptor
        bannerBuffer := (gmWarmFile gm path o).bannerBuffer
        bnrCache := (gmWarmFile gm path o).bnrCache } := by
  by_cases hvalid : o.info.valid = true
  · simp only [gmWarmFile, Games.getGameInfo, if_pos hvalid]
    split_ifs with hzero
    · rfl
    · generalize bnrCacheGet (dvdCustomOpen gm path o.gameFd).bnrCache (gmBnrCacheKey path)
        (dvdCustomOpen gm path o.gameFd).bannerBuffer = found
      cases found with
      | some bnr => simp only [dvdCustomClose, dvdCustomOpen]
      | none => simp only [dvdCustomClose, dvdCustomOpen, dvdThreadedRead]
  · rw [gmWarmFile, if_neg hvalid]

/-- What has been put is found. -/
theorem lookup_put_self (c : BnrCache) (key : UInt32) (bnr : Nat → BnrByte) :
    (bnrCachePut c key bnr).lookup key ≠ none := by
  cases hlook : c.lookup key with
  | some i =>
      rw [bnrCachePut_present hlook, hlook]
      exact Option.some_ne_none i
  | none =>
      rw [bnrCachePut_fresh hlook, Ne, lookup_none]
      intro hother
      exact hother c.nextIndex (by simp) (by simp)

theorem gameWarmed {s s' : WarmState} {g : WalkGame}
    (hbuffers : s'.buffers = (Disc.getGameInfo bnrOffsets g.calls.file s.buffers true).buffers)
    (hgm : s'.gm = gmWarmFile s.gm g.path o)
    (hinfo : o.info = (Disc.getGameInfo bnrOffsets g.calls.file s.buffers true).info)
    (hread : o.read = g.calls.read) :
    GameWarmed bnrOffsets s g s' where
  examined := hbuffers
  passed hnot := by
    rw [HasBanner, ← hinfo] at hnot
    rw [hgm, gmWarmFile_passed hnot]
  found hfound := by
    rw [hgm, gmWarmFile_found hfound]
  read hbanner hnone := by
    rw [HasBanner, ← hinfo] at hbanner
    rw [hgm, gmWarmFile_read hbanner.1 hbanner.2 hnone, hinfo, hread]
  cached hbanner := by
    rw [HasBanner, ← hinfo] at hbanner
    rw [hgm]
    by_cases hnone : s.gm.bnrCache.lookup (gmBnrCacheKey g.path) = none
    · rw [gmWarmFile_read hbanner.1 hbanner.2 hnone]
      exact lookup_put_self _ _ _
    · rw [gmWarmFile_found hnone]
      exact hnone
  others := by
    rw [hgm]
    exact gmWarmFile_others

end Browsing
end Cubiboot
