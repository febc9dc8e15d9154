import PresenceDevice.Library.Loop
import PresenceDevice.Library.Traced
import PresenceDevice.Library.Machine
import PresenceDevice.Library.Critical
import PresenceDevice.Library.Lock
import PresenceDevice.Library.Script
import PresenceDevice.Library.TickCounter
import PresenceDevice.Library.Utf8
import PresenceDevice.Presence
import PresenceDevice.PresenceLayout
import PresenceDevice.LayoutTrace
import PresenceDevice.Library.Tiling
import PresenceDevice.LayoutPartition
import PresenceDevice.LayoutUnique
import PresenceDevice.LayoutGreedy
import PresenceDevice.LayoutLimit
import PresenceDevice.LayoutJoin
import PresenceDevice.LayoutWords
import PresenceDevice.LayoutUtf8
import PresenceDevice.LayoutSegments
import PresenceDevice.LayoutBlankLines
import PresenceDevice.LayoutReads
import PresenceDevice.BoundedCopy
import PresenceDevice.Library.Writes
import PresenceDevice.OledText
import PresenceDevice.OledDrawText
import PresenceDevice.OledFlush
import PresenceDevice.StoredMessage
import PresenceDevice.PresenceRun
import PresenceDevice.PresenceSections
import PresenceDevice.PresenceScreen
import PresenceDevice.PresencePaging
import PresenceDevice.PresenceSession
import PresenceDevice.PresenceTiming
import PresenceDevice.AppMain
import PresenceDevice.DevicePanel
import PresenceDevice.DeviceTasks
import PresenceDevice.Readback
import PresenceDevice.ButtonLoop
import PresenceDevice.Notifications
import PresenceDevice.HttpServer
import PresenceDevice.MessagePost
import PresenceDevice.Library.Reader
import PresenceDevice.CJsonParser
import PresenceDevice.CJsonGrammar
import PresenceDevice.CJsonPrint
import PresenceDevice.MessageWhole
import PresenceDevice.DeviceRequests
import PresenceDevice.OledCalls
import PresenceDevice.Startup
import PresenceDevice.HandlerCalls
import PresenceDevice.DeviceUse
import PresenceDevice.MdnsName
import PresenceDevice.DnsName
