import LegacySupport.SleepOffset
import LegacySupport.ClockAgreement
import LegacySupport.ClockResolution
import LegacySupport.ClockMonotonic
import LegacySupport.BoottimeCheck
import LegacySupport.SleepSamples
import LegacySupport.ReseedBudget
import LegacySupport.KeystreamLedger
import LegacySupport.ForkSafety
import LegacySupport.UniformDraw
import LegacySupport.FmemopenAccess
import LegacySupport.Getdelim
import LegacySupport.GetdelimBounds
import LegacySupport.MemstreamGrowth
import LegacySupport.PacketReformat
import LegacySupport.PacketEndianness
import LegacySupport.CheckAccess
import LegacySupport.Faccessat
import LegacySupport.TwoPaths
import LegacySupport.Fdopendir
import LegacySupport.UnpackBounds
import LegacySupport.RoundTrip
import LegacySupport.Wcscasecmp
import LegacySupport.PosixMemalign
import LegacySupport.Utimensat
import LegacySupport.CopyOpen
import LegacySupport.CopyRetries
import LegacySupport.CopyXattr
import LegacySupport.CopySecurity
import LegacySupport.Copytree
import LegacySupport.Realpath
import LegacySupport.GetPath
import LegacySupport.StatFormat
import LegacySupport.Ratchet
import LegacySupport.Getentropy
import LegacySupport.BoundedCopies
import LegacySupport.AtThreads
