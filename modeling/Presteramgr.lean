import Presteramgr.Acl.CountersRun
import Presteramgr.Acl.DryRun
import Presteramgr.Acl.PclIds
import Presteramgr.Acl.SourceGuard
import Presteramgr.Acl.VlanRulesRun
import Presteramgr.Mac.Aging
import Presteramgr.Mac.Agreement
import Presteramgr.Mac.Election
import Presteramgr.Mac.Flush
import Presteramgr.Mac.Insertion
import Presteramgr.Mac.Learning
import Presteramgr.Mac.Messages
import Presteramgr.Mac.PortSec
import Presteramgr.Mll.Run
import Presteramgr.Acl.Encoded
import Presteramgr.Monitor.Requests
import Presteramgr.Policer.Profiles
import Presteramgr.Port.IsolationRun
import Presteramgr.Port.TranslationRun
import Presteramgr.Ret.Ecmp
import Presteramgr.Ret.FirstFit
import Presteramgr.Ret.NextHops
import Presteramgr.Route.Exhaustion
import Presteramgr.Route.Forwarding
import Presteramgr.Route.Gateways
import Presteramgr.Route.Ipv6Registered
import Presteramgr.Route.LongestMatch
import Presteramgr.Route.Mgmt
import Presteramgr.Ret.Pbr
import Presteramgr.Route.Neutral
import Presteramgr.Route.Stuck
import Presteramgr.Stack.DirectoryRun
import Presteramgr.Stack.Flood
import Presteramgr.Stack.Master
import Presteramgr.Stack.Unicast
import Presteramgr.Trunk.FanOut
import Presteramgr.Trunk.Aggregate
import Presteramgr.Trunk.Groups
import Presteramgr.Trunk.Hardware
import Presteramgr.Vlan.Ranges
import Presteramgr.Vlan.StpGroups
import Presteramgr.Vlan.Retagging
import Presteramgr.Acl.DstackRun
import Presteramgr.Acl.FreeIndexes
import Presteramgr.Acl.PolicyRows
import Presteramgr.Route.Joining
import Presteramgr.Mac.SecBreach
