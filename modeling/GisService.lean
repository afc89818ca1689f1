import GisService.Data.ByteString
import GisService.Data.Cxx
import GisService.Data.Decimal
import GisService.Data.Double
import GisService.Data.Sextet
import GisService.Data.Base64
import GisService.Data.Json
import GisService.Data.JsonReads
import GisService.Data.JsonText
import GisService.Data.Framing
import GisService.Data.HttpHead
import GisService.Data.Memory
import GisService.Data.CString
import GisService.Data.Path
import GisService.Data.PercentCode
import GisService.Data.AddressText
import GisService.Data.Runs
import GisService.Data.Interleaving
import GisService.Data.Program
import GisService.Jwt.Base
import GisService.Jwt.BaseRoundTrip
import GisService.Jwt.Picojson
import GisService.Jwt.PicojsonRoundTrip
import GisService.Jwt.Token
import GisService.Jwt.TokenShape
import GisService.Users.Storage
import GisService.Users.Ownership
import GisService.Url.Text
import GisService.Url.Parse
import GisService.Url.NormalPath
import GisService.Url.RoundTrip
import GisService.Url.NormalForm
import GisService.Url.IPv6
import GisService.Url.IPv6Normal
import GisService.Url.Object
import GisService.Url.Programs
import GisService.Http.Message
import GisService.Http.Server
import GisService.Http.Session
import GisService.Http.DocRoot
import GisService.Api.Handler
import GisService.Api.Outcome
import GisService.Api.Sessions
import GisService.Api.Authorisation
import GisService.Api.Totality
import GisService.Api.Login
import GisService.Api.SessionTable
import GisService.Service.Connections
import GisService.WebSocket.Echo
import GisService.WebSocket.Client
import GisService.WebSocket.Broadcast
import GisService.Video.Base64
import GisService.Video.Message
import GisService.Video.Base64Decode
import GisService.Video.Capacity
import GisService.Video.SharedMemory
import GisService.Video.Server
import GisService.Video.Descriptors
import GisService.Video.Stream
import GisService.Video.Passage
import GisService.Gps.LogTime
