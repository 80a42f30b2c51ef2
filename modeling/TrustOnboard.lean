import TrustOnboard.ExecMonad
import TrustOnboard.ExecRules
import TrustOnboard.BytesMemory
import TrustOnboard.HexModel
import TrustOnboard.CardIso7816
import TrustOnboard.CardSEInterface
import TrustOnboard.CardExchange
import TrustOnboard.CardTrace
import TrustOnboard.AppletModel
import TrustOnboard.AppletTrace
import TrustOnboard.MFModel
import TrustOnboard.MiasKeys
import TrustOnboard.MiasObjects
import TrustOnboard.MiasCrypto
import TrustOnboard.MiasTrace
import TrustOnboard.SdkPem
import TrustOnboard.SdkBase64
import TrustOnboard.ScanRestart
import TrustOnboard.SdkCrop
import TrustOnboard.SdkModel
import TrustOnboard.SdkTrace
import TrustOnboard.SdkPin
import TrustOnboard.SdkProcess
import TrustOnboard.SdkSession
import TrustOnboard.SdkChannels
import TrustOnboard.MiasReading
import TrustOnboard.AppletSelection
import TrustOnboard.AppletRuns
import TrustOnboard.ModemLines
import TrustOnboard.ModemResponse
import TrustOnboard.ModemFraming
import TrustOnboard.MiasCard
import TrustOnboard.MiasLookup
import TrustOnboard.MiasCertificates
import TrustOnboard.MiasTable
import TrustOnboard.CardWire
import TrustOnboard.CardResend
import TrustOnboard.AppletFollowUps
import TrustOnboard.MiasPin
import TrustOnboard.MiasSignature
import TrustOnboard.AppletRelations
import TrustOnboard.MiasRelations
import TrustOnboard.MiasPools
import TrustOnboard.SdkIsolation
import TrustOnboard.LockMonitor
import TrustOnboard.EngineModel
import TrustOnboard.EngineLock
import TrustOnboard.AdaptorModel
import TrustOnboard.AdaptorDecrypt
import TrustOnboard.MiasLengths
import TrustOnboard.SdkCodes
import TrustOnboard.MFPaths
import TrustOnboard.MiasDigest
import TrustOnboard.CardOutcome
import TrustOnboard.MiasListing
import TrustOnboard.MiasEntries
import TrustOnboard.MiasCached
import TrustOnboard.MiasContainers
import TrustOnboard.MiasOrder
import TrustOnboard.MFReading
import TrustOnboard.ModemErrors
import TrustOnboard.SdkCard
import TrustOnboard.SdkExport
import TrustOnboard.SdkQuery
import TrustOnboard.CardApdus
import TrustOnboard.MiasApdus
import TrustOnboard.SdkApdus
import TrustOnboard.SdkOrder
import TrustOnboard.MiasDecipher
import TrustOnboard.MiasFields
import TrustOnboard.MiasTemplate
import TrustOnboard.MiasProgress
import TrustOnboard.MiasBounds
import TrustOnboard.ExecGuards
import TrustOnboard.ExecRecords
import TrustOnboard.MiasFresh
import TrustOnboard.AdaptorContexts
import TrustOnboard.AdaptorCredentials
import TrustOnboard.AdaptorHsm
import TrustOnboard.PcscReaders
import TrustOnboard.MiasHashing
import TrustOnboard.HexRoundTrip
import TrustOnboard.TokenRuns
import TrustOnboard.TokenService
import TrustOnboard.CardSimulation
import TrustOnboard.ModemLink
import TrustOnboard.TokenModem
import TrustOnboard.ToolModel
import TrustOnboard.ToolRuns
import TrustOnboard.ExecSimulation
import TrustOnboard.SerialModel
import TrustOnboard.SerialLink
import TrustOnboard.TokenSerial
import TrustOnboard.HandleSlot
import TrustOnboard.SerialRuns
import TrustOnboard.PcscHandles
import TrustOnboard.TokenReader
