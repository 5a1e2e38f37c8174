import Cubiboot.Games.Listing

/-!
# The directory that is browsed

The path that `gm_start_thread` makes of its target: the directory itself, or
`".."` for the one above the directory that is shown.

A directory that is shown ends in a slash, which is added where the target has none. The
path above one ends at the last slash but one; that of the root is the root, as there is
no such slash. The length of the path, for which the source has 128 bytes, plays no part
in these functions; the same functions with their arrays are in `Browsing.Strings`.
-/

namespace Cubiboot
namespace Games

/-- `"/"`. -/
def rootPath : Path := [0x2F]

/-- `".."`. -/
def parentTarget : Path := [0x2E, 0x2E]

/-- The path up to its last slash, or all of it. -/
def beforeLastSlash (path : Path) : Path :=
  match strrchr 0x2F path with
  | none => path
  | some found => path.take (path.length - found.length)

/-- The `".."` branch of `gm_start_thread`, on `game_enum_path`. -/
def popPath (gameEnumPath : Path) : Path :=
  let above := beforeLastSlash gameEnumPath.dropLast
  if above = [] then rootPath else above

/-- A path with a slash at its end. -/
def withSlash (path : Path) : Path :=
  if path.getLast? = some 0x2F then path else path ++ [0x2F]

/-- `game_enum_path` after `gm_start_thread`. -/
def startPath (gameEnumPath target : Path) : Path :=
  withSlash (if target = parentTarget then popPath gameEnumPath else target)

end Games
end Cubiboot
