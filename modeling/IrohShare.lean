import IrohShare.Transition
import IrohShare.ByteStream
import IrohShare.Path
import IrohShare.Protocol
import IrohShare.OfferGrammar
import IrohShare.Sender
import IrohShare.ResponseLanguage
import IrohShare.Receiver
import IrohShare.SavedName
import IrohShare.Verdict
import IrohShare.SharedFolder
import IrohShare.BothEnds
import IrohShare.Approval
import IrohShare.Watch
import IrohShare.SendProgress
import IrohShare.Discovery
import IrohShare.Pins
import IrohShare.BlobStore
import IrohShare.Notify
import IrohShare.OfferDesk
import IrohShare.OfferNumbers
import IrohShare.OfferTrails
import IrohShare.Consent
import IrohShare.OfferWaits
import IrohShare.OfferClock
import IrohShare.OfferPage
import IrohShare.OfferDialog
import IrohShare.OfferShown
import IrohShare.OfferSeen
import IrohShare.PageStart
import IrohShare.StartFollows
import IrohShare.ReceiveView
import IrohShare.DownloadSteps
import IrohShare.ReceiveTruth
import IrohShare.ReceiveLeft
import IrohShare.SendPage
import IrohShare.SendOwn
import IrohShare.LineInput
import IrohShare.Terminal
import IrohShare.TerminalDialog
import IrohShare.TerminalConsent
import IrohShare.SendLock
import IrohShare.SendSchedule
import IrohShare.AbsolutePath
import IrohShare.CommandLine
import IrohShare.Transfer
import IrohShare.Numeral
import IrohShare.Selection
import IrohShare.SendWindow
import IrohShare.SendTarget
import IrohShare.SendStaging
import IrohShare.SendScreen
import IrohShare.SendNetwork
import IrohShare.SendTruth
