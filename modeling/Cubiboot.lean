import Cubiboot.Aram.ArqBytes
import Cubiboot.Boot.ElTorito
import Cubiboot.Boot.EntryMain
import Cubiboot.Boot.EntryStub
import Cubiboot.Boot.Handoff
import Cubiboot.Boot.IplImage
import Cubiboot.Boot.TableLayout
import Cubiboot.Browsing.Coverage
import Cubiboot.Browsing.Overruns
import Cubiboot.Browsing.Stack
import Cubiboot.Browsing.WarmFaults
import Cubiboot.Disc.Descriptors
import Cubiboot.Disc.FstBounds
import Cubiboot.Disc.ReadData
import Cubiboot.Drives.GcodePaths
import Cubiboot.Drives.NativeReads
import Cubiboot.Drives.RawRead
import Cubiboot.Drives.Waiting
import Cubiboot.DvmCache.FailedWrites
import Cubiboot.DvmCache.ListRuns
import Cubiboot.Games.AramLayout
import Cubiboot.Games.ArqBacked
import Cubiboot.Games.BannerFifo
import Cubiboot.Games.DeferredFree
import Cubiboot.Games.Discard
import Cubiboot.Games.ForeignBanner
import Cubiboot.Games.Listing
import Cubiboot.Games.Pairing
import Cubiboot.Games.Residency
import Cubiboot.Games.Sorting
import Cubiboot.Grid.Settling
import Cubiboot.Heap.Safety
import Cubiboot.Os.Locking
import Cubiboot.Os.MessageQueue
import Cubiboot.Patching.Applied
import Cubiboot.Release.Lossless
import Cubiboot.Session.DriveBus
import Cubiboot.Session.SelectedGame
import Cubiboot.Settings.IniFile
import Cubiboot.Worker.OneWorker
