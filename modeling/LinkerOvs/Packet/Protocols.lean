/-
Protocol numbers (`lib/packets.h`, `netinet/in.h`, `netinet/icmp6.h`) and reserved ports of OpenFlow, in host order.
-/
import LinkerOvs.Util.ByteOrder

namespace LinkerOvs

def ethTypeIp : UInt16 := 0x0800
def ethTypeArp : UInt16 := 0x0806
def ethTypeVlan : UInt16 := 0x8100
def ethTypeIpv6 : UInt16 := 0x86dd
def ethTypeRarp : UInt16 := 0x8035
def ethTypeMpls : UInt16 := 0x8847
def ethTypeMplsMcast : UInt16 := 0x8848
def ethTypeMin : UInt16 := 0x600

def ipprotoHopopts : UInt8 := 0
def ipprotoIcmp : UInt8 := 1
def ipprotoIgmp : UInt8 := 2
def ipprotoTcp : UInt8 := 6
def ipprotoUdp : UInt8 := 17
def ipprotoRouting : UInt8 := 43
def ipprotoFragment : UInt8 := 44
def ipprotoAh : UInt8 := 51
def ipprotoIcmpv6 : UInt8 := 58
def ipprotoDstopts : UInt8 := 60
def ipprotoSctp : UInt8 := 132

def vlanVidMask : UInt16 := 0x0fff

def vlanCfi : UInt16 := 0x1000

def mldQuery : Nat := 130
def mldReport : Nat := 131
def mldDone : Nat := 132
def mld2Report : Nat := 143

def ethAddrZero : List UInt8 := List.replicate 6 0

def ofppController : UInt16 := 0xfffd
def ofppNone : UInt16 := 0xffff

def flowNwFragAny : UInt8 := 1

def flowNwFragLater : UInt8 := 2

/-- On a type in network order. -/
def dlTypeIsIpAny (dlType : UInt16) : Bool := dlType = htons ethTypeIp || dlType = htons ethTypeIpv6

/-- `eth_type_mpls`, on a type in network order. -/
def ethTypeIsMpls (ethType : UInt16) : Bool := ethType = htons ethTypeMpls || ethType = htons ethTypeMplsMcast

end LinkerOvs
