import Lyslg.ByteArray.Refinement
import Lyslg.ByteArray.RoundTrip
import Lyslg.ByteArray.Lifetime
import Lyslg.ByteArray.ZeroCopy
import Lyslg.ByteArray.Strings
import Lyslg.ByteArray.Varint
import Lyslg.ByteArray.Positional
import Lyslg.ByteArray.Files
import Lyslg.Stream.SSLStream
import Lyslg.Http.WSLimit
import Lyslg.Http.WSResend
import Lyslg.Http.RequestBody
import Lyslg.Http.MethodToken
import Lyslg.Http.Framing
import Lyslg.Http.ResponseBuffer
import Lyslg.Http.ResponseBody
import Lyslg.Http.WSServer
import Lyslg.Http.ServletHistory
import Lyslg.Http.WSFragments
import Lyslg.Http.WSControl
import Lyslg.Http.PoolPolicy
import Lyslg.Config.ConfigVar
import Lyslg.Module.Registry
import Lyslg.Log.Reload
import Lyslg.Log.Forward
import Lyslg.Log.Percent
import Lyslg.Timer.RealTime
import Lyslg.Timer.Rollover
import Lyslg.Timer.Wakeup
import Lyslg.IoManager.Dispatch
import Lyslg.IoManager.Table
import Lyslg.IoManager.Idle
import Lyslg.Timer.Front
import Lyslg.Scheduler.Conservation
import Lyslg.Scheduler.Exclusive
import Lyslg.Scheduler.Affinity
import Lyslg.Hook.Identity
import Lyslg.Hook.Timeout
import Lyslg.Http.HttpClientTable
import Lyslg.Http.ResponseParser
import Lyslg.Uri.Components
import Lyslg.Uri.NormalForm
import Lyslg.Http.ParamMaps
import Lyslg.Util.UrlReference
import Lyslg.Util.Base64RoundTrip
import Lyslg.Util.Hex
import Lyslg.Util.Json
import Lyslg.Util.Replace
import Lyslg.Util.Split
import Lyslg.Util.Trim
import Lyslg.Util.Numerals
import Lyslg.Util.QuickHash
import Lyslg.Address.Model
import Lyslg.Address.Subnet
import Lyslg.Address.Subnet6
import Lyslg.Address.Interfaces
import Lyslg.Address.Lookup
import Lyslg.Address.Text
import Lyslg.Address.Insert
import Lyslg.YAML.Flow
import Lyslg.Log.LexicalCast
import Lyslg.TcpServer.Conf
import Lyslg.Config.LoadFromYaml
import Lyslg.Scheduler.Progress
import Lyslg.Scheduler.Stopping
import Lyslg.Hook.WaitPlaces
import Lyslg.Hook.WaitTimeout
import Lyslg.Http.Exchanges
import Lyslg.Http.DoRequest
import Lyslg.Http.WSHandshake
import Lyslg.Http.PoolExchanges
