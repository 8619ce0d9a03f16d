import CryptPilot.Core.Blkid
import CryptPilot.Core.Blktrace
import CryptPilot.Core.CachedSource
import CryptPilot.Core.Disk
import CryptPilot.Core.Luks2
import CryptPilot.Core.Mkfs
import CryptPilot.Core.Operations
import CryptPilot.Core.ProviderConfig
import CryptPilot.Core.TmpMount
import CryptPilot.Crypt.Commands
import CryptPilot.Crypt.ConfigCheck
import CryptPilot.Crypt.InitRun
import CryptPilot.Crypt.Isolation
import CryptPilot.Crypt.Subcommands
import CryptPilot.Crypt.VolumeConfigs
import CryptPilot.Data.Arrivals
import CryptPilot.Data.Chunks
import CryptPilot.Data.Decimal
import CryptPilot.Data.Except
import CryptPilot.Data.Expand
import CryptPilot.Data.FileTree
import CryptPilot.Data.Hex
import CryptPilot.Data.History
import CryptPilot.Data.Loop
import CryptPilot.Data.Lru
import CryptPilot.Data.Merkle
import CryptPilot.Data.Outcomes
import CryptPilot.Data.Pages
import CryptPilot.Data.PathWalk
import CryptPilot.Data.Prog
import CryptPilot.Data.Rely
import CryptPilot.Data.Resource
import CryptPilot.Data.Sorted
import CryptPilot.Data.Text
import CryptPilot.Data.Toml
import CryptPilot.Data.Utf8
import CryptPilot.Data.Words
import CryptPilot.Fde.AfterSysroot
import CryptPilot.Fde.Attested
import CryptPilot.Fde.BeforeSysroot
import CryptPilot.Fde.BootStages
import CryptPilot.Fde.CopyConfig
import CryptPilot.Fde.ExternalDisk
import CryptPilot.Fde.ExternalRead
import CryptPilot.Fde.ExternalSession
import CryptPilot.Fde.ExternalView
import CryptPilot.Fde.Grub
import CryptPilot.Fde.GrubArtifacts
import CryptPilot.Fde.GrubEnv
import CryptPilot.Fde.GrubMenu
import CryptPilot.Fde.InitrdState
import CryptPilot.Fde.KernelArtifacts
import CryptPilot.Fde.PartitionDevice
import CryptPilot.Fde.Uki
import CryptPilot.Verity.Commands
import CryptPilot.Verity.FormatComplete
import CryptPilot.Verity.FormatVerify
import CryptPilot.Verity.Hostile
import CryptPilot.Verity.Metadata
import CryptPilot.Verity.OpenCommand
import CryptPilot.Verity.OpenFormatted
import CryptPilot.Verity.OpenSound
import CryptPilot.Verity.RootHash
import CryptPilot.Verity.RoundTrip
import CryptPilot.Verity.VerifySound
import CryptPilot.VerityCore.Binding
import CryptPilot.VerityCore.ClosedForm
import CryptPilot.VerityCore.Config
import CryptPilot.VerityCore.Correct
import CryptPilot.VerityCore.Digest
import CryptPilot.VerityCore.LevelLimit
import CryptPilot.VerityCore.Rebuild
import CryptPilot.VerityCore.Streaming
import CryptPilot.VerityFuse.FileHandleCache
import CryptPilot.VerityFuse.FileVerityInfo
import CryptPilot.VerityFuse.Filesystem
import CryptPilot.VerityFuse.Namespace
import CryptPilot.VerityFuse.ReadDir
import CryptPilot.VerityFuse.ReadFile
import CryptPilot.VerityFuse.ReadRefines
import CryptPilot.VerityFuse.ReadSound
import CryptPilot.VerityFuse.Session
import CryptPilot.VerityFuse.Verifier
import CryptPilot.VerityGo.Digest
import CryptPilot.VerityGo.Interop
import CryptPilot.VerityGo.Levels
import CryptPilot.VerityGo.Metadata
import CryptPilot.VerityGo.Simulation
import CryptPilot.Volume.Concurrent
import CryptPilot.Volume.DeltaData
import CryptPilot.Volume.HeaderRead
import CryptPilot.Volume.Initialized
import CryptPilot.Volume.Mapping
import CryptPilot.Volume.MountBinds
import CryptPilot.Volume.MountHistory
