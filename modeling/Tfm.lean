import Tfm.Core.BiList
import Tfm.Core.BlockDev
import Tfm.Core.Bytes
import Tfm.Core.Chain
import Tfm.Core.Crash
import Tfm.Core.Index
import Tfm.Core.LTS
import Tfm.Core.Pieces
import Tfm.Core.PowTwo
import Tfm.Core.Psa
import Tfm.Core.Rank
import Tfm.Core.ReadFault
import Tfm.Core.Regions
import Tfm.Core.Signal
import Tfm.Core.Tiles
import Tfm.Core.Tlv
import Tfm.Core.While
import Tfm.Core.Within
import Tfm.Core.WordMem
import Tfm.L1Build.ParseManifest
import Tfm.L1Build.StaticHandles
import Tfm.L2Platform.Crt
import Tfm.L2Platform.DriverFlash
import Tfm.L2Platform.MemCheck
import Tfm.L2Platform.NvCounter
import Tfm.L2Platform.Smpu
import Tfm.L2Platform.SmpuConfig
import Tfm.L4Service.AttestComponents
import Tfm.L4Service.Audit
import Tfm.L4Service.BootData
import Tfm.L4Service.CryptoAlloc
import Tfm.L4Service.CryptoKey
import Tfm.L4Service.CryptoScratch
import Tfm.L4Service.CryptoSlot
import Tfm.L4Service.Fwu
import Tfm.L4Service.FwuQuery
import Tfm.L4Service.FwuStaged
import Tfm.L4Service.FwuWrite
import Tfm.L4Service.Its
import Tfm.L4Service.ItsChunked
import Tfm.L4Service.ItsConfig
import Tfm.L4Service.ItsContents
import Tfm.L4Service.ItsCrash
import Tfm.L4Service.ItsFile
import Tfm.L4Service.ItsFlash
import Tfm.L4Service.ItsLayout
import Tfm.L4Service.ItsMount
import Tfm.L4Service.ItsNand
import Tfm.L4Service.ItsOnce
import Tfm.L4Service.ItsProgram
import Tfm.L4Service.ItsReach
import Tfm.L4Service.ItsReadFault
import Tfm.L4Service.ItsReadOnce
import Tfm.L4Service.ItsRun
import Tfm.L4Service.ItsService
import Tfm.L4Service.ItsSpec
import Tfm.L4Service.ItsTable
import Tfm.L4Service.ItsUpdate
import Tfm.L4Service.ItsWipe
import Tfm.L4Service.ItsWrite
import Tfm.L4Service.KeyOwner
import Tfm.L4Service.LogRaw
import Tfm.L4Service.NsClient
import Tfm.L4Service.PlatformNv
import Tfm.L4Service.Pools
import Tfm.L4Service.Ps
import Tfm.L4Service.PsAgree
import Tfm.L4Service.PsCapacity
import Tfm.L4Service.PsCrash
import Tfm.L4Service.PsDecode
import Tfm.L4Service.PsFault
import Tfm.L4Service.PsIv
import Tfm.L4Service.PsOnce
import Tfm.L4Service.PsRecover
import Tfm.L4Service.PsRollback
import Tfm.L4Service.PsSave
import Tfm.L4Service.PsSpec
import Tfm.L4Service.PsStore
import Tfm.L4Service.PsWipe
import Tfm.L4Service.PsaProxy
import Tfm.L4Service.PsaProxyConn
import Tfm.L4Service.PsaProxyLoop
import Tfm.L4Service.Spm
import Tfm.L4Service.SpmConserve
import Tfm.L4Service.SpmEntry
import Tfm.L4Service.SpmFunc
import Tfm.L4Service.SpmInv
import Tfm.L4Service.SpmNsSafe
import Tfm.L4Service.SpmOneMsg
import Tfm.L4Service.SpmPool
import Tfm.L4Service.SpmQueue
import Tfm.L4Service.SpmReject
import Tfm.L4Service.SpmReply
import Tfm.L4Service.SpmServe
import Tfm.L4Service.SpmStep
import Tfm.L4Service.SpmVectors
import Tfm.L4Service.StorageReq
import Tfm.L4Service.VendorKey
import Tfm.L4Service.VendorOpen
import Tfm.L5Concurrency.Mailbox
import Tfm.L5Concurrency.MailboxAgree
import Tfm.L5Concurrency.NsThread
import Tfm.L5Concurrency.PsaWait
import Tfm.L5Concurrency.SpeMailbox
import Tfm.L5Concurrency.Thrd
import Tfm.L4Service.ItsInside
import Tfm.L4Service.ItsAccess
import Tfm.L4Service.ItsContain
import Tfm.Core.Cbor
import Tfm.L3Format.CoseSign
import Tfm.L4Service.AttestService
import Tfm.Core.Simulation
import Tfm.L4Service.ItsStore
import Tfm.L3Format.QcborRoundtrip
import Tfm.L3Format.CoseVerify
import Tfm.L4Service.AttestVerify
