import Trex.Block.CacheProof
import Trex.Block.OverlayRun
import Trex.Capture.X86
import Trex.Emulator.TrackedVersion
import Trex.Emulator.TranslatedMemory
import Trex.Fat.LayoutProof
import Trex.Filesystem.DirectoryCaches
import Trex.Filesystem.ImageProof
import Trex.Filesystem.SharedObjects
import Trex.Gdb.ActorProof
import Trex.Gdb.Scope
import Trex.Gdb.Search
import Trex.Gdb.Wire
import Trex.Git.DeltaExact
import Trex.Git.ImportPack
import Trex.Git.ImportParallel
import Trex.Kd.Delivery
import Trex.Kd.Request
import Trex.Kd.Resend
import Trex.Kd.SessionProof
import Trex.Nbd.Options
import Trex.Nbd.TransmitRun
import Trex.Ntfs.SecurityTree
import Trex.Repo.IndexCanonical
import Trex.Repo.Names
import Trex.Sqlite.RoundTrip
import Trex.Sqlite.Wal
