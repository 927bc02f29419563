import RuleBaseProxy.Lib.Transition
import RuleBaseProxy.Lib.SharedUpdate
import RuleBaseProxy.Lib.Goroutines
import RuleBaseProxy.Lib.GoString
import RuleBaseProxy.Lib.GoText
import RuleBaseProxy.Lib.GoDuration
import RuleBaseProxy.Lib.FloatRound
import RuleBaseProxy.Lib.NetIP
import RuleBaseProxy.Lib.NetCIDR
import RuleBaseProxy.Lib.NetRange
import RuleBaseProxy.Lib.NetSlice
import RuleBaseProxy.Lib.HostPort
import RuleBaseProxy.Lib.NetParse
import RuleBaseProxy.Lib.OrderedMap
import RuleBaseProxy.Lib.WildcardPath
import RuleBaseProxy.Lib.RecencyList
import RuleBaseProxy.Lib.Base64
import RuleBaseProxy.Lib.Duplex
import RuleBaseProxy.Lib.ChunkedStream
import RuleBaseProxy.Lib.SegmentedRun
import RuleBaseProxy.Lib.Bufio
import RuleBaseProxy.Lib.PacketStream
import RuleBaseProxy.Lib.Uvarint
import RuleBaseProxy.Lib.Deferred
import RuleBaseProxy.Lib.Kahn
import RuleBaseProxy.Lib.CyclicScan
import RuleBaseProxy.Lib.PairedRecency
import RuleBaseProxy.Lib.StreamCopy
import RuleBaseProxy.Component.Trie
import RuleBaseProxy.Component.TrieLookup
import RuleBaseProxy.Component.Auth
import RuleBaseProxy.Component.Dialer
import RuleBaseProxy.Constant.InfoKey
import RuleBaseProxy.Constant.Metadata
import RuleBaseProxy.Rule.Basic
import RuleBaseProxy.Rule.Parser
import RuleBaseProxy.Rule.Usable
import RuleBaseProxy.Rule.LetterCase
import RuleBaseProxy.Tunnel.Match
import RuleBaseProxy.Tunnel.MatchCache
import RuleBaseProxy.Tunnel.CacheUpdate
import RuleBaseProxy.Tunnel.RulesSaveDB
import RuleBaseProxy.Tunnel.RuleRepair
import RuleBaseProxy.Tunnel.Reload
import RuleBaseProxy.Route.HashMap
import RuleBaseProxy.Route.Persist
import RuleBaseProxy.Route.Restart
import RuleBaseProxy.Route.ListedRules
import RuleBaseProxy.Route.RuleEntry
import RuleBaseProxy.Outbound.Vmess
import RuleBaseProxy.Outbound.Util
import RuleBaseProxy.Outbound.Socks5
import RuleBaseProxy.Outbound.Release
import RuleBaseProxy.Outbound.HttpConnect
import RuleBaseProxy.Tunnel.UDP
import RuleBaseProxy.Tunnel.UDPSession
import RuleBaseProxy.Tunnel.IdleConn
import RuleBaseProxy.Tunnel.Relay
import RuleBaseProxy.Statistic.Tracker
import RuleBaseProxy.Statistic.Traffic
import RuleBaseProxy.Transport.Socks5
import RuleBaseProxy.Transport.Socks5Handshake
import RuleBaseProxy.Transport.Socks5Client
import RuleBaseProxy.Transport.Socks5Packet
import RuleBaseProxy.Transport.Socks5NetAddr
import RuleBaseProxy.Transport.VmessBody
import RuleBaseProxy.Transport.VmessNonce
import RuleBaseProxy.Transport.Gun
import RuleBaseProxy.Transport.Trojan
import RuleBaseProxy.Inbound.Util
import RuleBaseProxy.Listener.Socks4
import RuleBaseProxy.Transport.Socks4Client
import RuleBaseProxy.Listener.HttpAuth
import RuleBaseProxy.Listener.ReCreate
import RuleBaseProxy.Config.Hosts
import RuleBaseProxy.Config.GroupGraph
import RuleBaseProxy.Config.GroupSort
import RuleBaseProxy.Config.LoopReport
import RuleBaseProxy.OutboundGroup.Selector
import RuleBaseProxy.OutboundGroup.LoadBalance
import RuleBaseProxy.OutboundGroup.UrlTest
import RuleBaseProxy.OutboundGroup.Relay
import RuleBaseProxy.Provider.Fetcher
import RuleBaseProxy.Common.SingleDo
import RuleBaseProxy.Common.Structure
import RuleBaseProxy.Common.StructurePanic
import RuleBaseProxy.Common.LruCache
import RuleBaseProxy.Common.LinkedLru
import RuleBaseProxy.Common.CloneTo
import RuleBaseProxy.Component.FakeIP
import RuleBaseProxy.Component.FakeIPReuse
import RuleBaseProxy.Component.FakeIPRange
import RuleBaseProxy.Dns.MsgCache
import RuleBaseProxy.Dns.OptRecord
import RuleBaseProxy.Dns.ResolveIP
import RuleBaseProxy.Dns.Dhcp
import RuleBaseProxy.Dns.Mapping
import RuleBaseProxy.Dns.AdGuard
import RuleBaseProxy.Dns.Enhancer
import RuleBaseProxy.Common.Murmur3
import RuleBaseProxy.OutboundGroup.ConsistentHash
import RuleBaseProxy.Common.Picker
import RuleBaseProxy.Dns.Exchange
import RuleBaseProxy.Dns.Handler
import RuleBaseProxy.Tunnel.HostMapping
import RuleBaseProxy.Adapter.Proxy
import RuleBaseProxy.Common.Batch
import RuleBaseProxy.Lib.Channel
import RuleBaseProxy.Common.Observable
import RuleBaseProxy.Listener.HttpProxy
import RuleBaseProxy.Lib.Checked
import RuleBaseProxy.Provider.ProxySet
import RuleBaseProxy.OutboundGroup.Parser
import RuleBaseProxy.Config.ParseProxies
