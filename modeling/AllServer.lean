import AllServer.AfterClose
import AllServer.Alignment
import AllServer.BufferSize
import AllServer.CServerConfig
import AllServer.Callbacks
import AllServer.CheckHeader
import AllServer.ClientFrame
import AllServer.Conservation
import AllServer.CryptSha1
import AllServer.Disconnects
import AllServer.Dispatcher
import AllServer.EventQueue
import AllServer.Gateway
import AllServer.HeaderLength
import AllServer.HeaderNames
import AllServer.HeaderStability
import AllServer.HttpParameter
import AllServer.JsonEscape
import AllServer.JsonExtends
import AllServer.JsonFragments
import AllServer.JsonFree
import AllServer.JsonGrammar
import AllServer.JsonLexer
import AllServer.JsonLookup
import AllServer.JsonMachine
import AllServer.JsonParser
import AllServer.JsonPrint
import AllServer.JsonRoundTrip
import AllServer.JsonStrip
import AllServer.JsonTokens
import AllServer.JsonTree
import AllServer.JsonUnescape
import AllServer.Listener
import AllServer.LoopExits
import AllServer.Masking
import AllServer.OneWrite
import AllServer.Oversize
import AllServer.Packet
import AllServer.ParameterValues
import AllServer.PoolTraversal
import AllServer.RString
import AllServer.Reassembly
import AllServer.RefCount
import AllServer.Server
import AllServer.Staging
import AllServer.UpgradeRequest
import AllServer.Util.Blocks
import AllServer.Util.Forest
import AllServer.Util.Sha1
