import SimiboxDownloader.PingPong.Outcome
import SimiboxDownloader.Boot.Counter
import SimiboxDownloader.Card.Calls
import SimiboxDownloader.Card.Frame
import SimiboxDownloader.Download.File
import SimiboxDownloader.Download.Folder
import SimiboxDownloader.Download.Usage
import SimiboxDownloader.Download.Environment
import SimiboxDownloader.Download.Confinement
import SimiboxDownloader.Boot.Mutators
import SimiboxDownloader.Boot.PowerLoss
import SimiboxDownloader.Boot.Retries
import SimiboxDownloader.Boot.Ssid
import SimiboxDownloader.Download.Verify
import SimiboxDownloader.Card.Writing
import SimiboxDownloader.Download.Received
import SimiboxDownloader.Wifi.Creds
import SimiboxDownloader.Wifi.ConnectBest
import SimiboxDownloader.Wifi.Feedback
import SimiboxDownloader.PingPong.Drained
import SimiboxDownloader.PingPong.Round
import SimiboxDownloader.Download.Discipline
import SimiboxDownloader.Download.Package
import SimiboxDownloader.Download.Deletion
import SimiboxDownloader.Boot.RoundTrip
import SimiboxDownloader.Boot.NvsRecovery
import SimiboxDownloader.Library.StableOrder
import SimiboxDownloader.Wifi.Ranking
import SimiboxDownloader.Wifi.Attempts
import SimiboxDownloader.Download.Loop
import SimiboxDownloader.Download.Progress
import SimiboxDownloader.Sd.Clock
import SimiboxDownloader.Wifi.Loading
import SimiboxDownloader.Download.Counting
import SimiboxDownloader.Download.Listing
import SimiboxDownloader.Download.Failures
import SimiboxDownloader.Card.Effects
import SimiboxDownloader.Download.Filling
import SimiboxDownloader.Download.Installed
import SimiboxDownloader.Download.Working
import SimiboxDownloader.Download.Completion
import SimiboxDownloader.Download.Recovery
import SimiboxDownloader.Download.Undeletable
import SimiboxDownloader.Led.Static
import SimiboxDownloader.Device.Order
import SimiboxDownloader.Device.Untouched
import SimiboxDownloader.PingPong.Liveness
import SimiboxDownloader.Led.Waiting
import SimiboxDownloader.Wifi.Sources
import SimiboxDownloader.Download.Served
import SimiboxDownloader.Device.Delivery
import SimiboxDownloader.Device.Verdict
