import Netflow.CuteCat.Message
import Netflow.Nose.Captured

set_option autoImplicit false

/-! # The capture callbacks (`NoseTcp.c`, `NoseUdp.c`)

`libpcap` calls them with a captured frame. They overlay its bytes with the headers of Ethernet, IP and
TCP or UDP and pass a part of it to `SendTcp2Cats`. A field that was not captured whole is read behind
the frame, which gives `none`. The callbacks for the two protocols have functions of the same names, so
they stand in the namespaces `NoseTcp` and `NoseUdp`.

The processor is little-endian, so the first of two bit fields is the low half of its byte. The texts of
the addresses and ports are shorter than the buffers they are copied to.
-/

namespace Netflow

/-- A captured frame: its `caplen` bytes, which a `bpf_u_int32` counts. -/
structure Frame where
  content : List Byte
  caplen_lt : content.length < 4294967296

namespace Frame

def caplen (f : Frame) : Nat := f.content.length

/-- The byte at an offset. -/
def byte (f : Frame) (i : Nat) : Byte := f.content.getD i 0

/-- The two bytes at an offset, in the order of the network. -/
def half (f : Frame) (i : Nat) : UInt16 :=
  UInt16.ofNat ((f.byte i).toNat * 256 + (f.byte (i + 1)).toNat)

/-- The address at an offset. -/
def addr (f : Frame) (i : Nat) : in_addr := ⟨f.byte i, f.byte (i + 1), f.byte (i + 2), f.byte (i + 3)⟩

/-- A field of `n` bytes at an offset is read. -/
def read {α : Type} (f : Frame) (i n : Nat) (field : α) : Option α :=
  if i + n ≤ f.caplen then some field else none

def u8 (f : Frame) (i : Nat) : Option Byte := f.read i 1 (f.byte i)

/-- `ntohs` of a field. -/
def u16 (f : Frame) (i : Nat) : Option UInt16 := f.read i 2 (f.half i)

/-- `ntohl` of a field. -/
def u32 (f : Frame) (i : Nat) : Option (UInt16 × UInt16) := f.read i 4 (f.half i, f.half (i + 2))

def u32Addr (f : Frame) (i : Nat) : Option in_addr := f.read i 4 (f.addr i)

end Frame

/-- The difference of two `u_int`. -/
def uintSub (a b : Nat) : Nat := (a + 4294967296 - b) % 4294967296

/-- The arguments of a call of `SendTcp2Cats` but the client; `tcpData` is the offset of the pointer in
the frame. -/
structure SendCall where
  source : CStr
  fp : CStr
  dest : CStr
  tp : CStr
  tcpData : Nat
  size : Nat
deriving DecidableEq

/-- The packet that `SendTcp2Cats` finds at the pointer. -/
def SendCall.packet (f : Frame) (c : SendCall) : Packet where
  source := c.source
  fp := c.fp
  dest := c.dest
  tp := c.tp
  tcpData := f.content.drop c.tcpData
  size := c.size

def SENDTCP2CATS_LO (c : SendCall) : Option SendCall := if 0 < c.size then some c else none

/-- The call with the texts the callbacks write. -/
def sendCall (source dest : in_addr) (source_port destination_port : UInt16) (tcpData size : Nat) :
    SendCall where
  source := inet_ntoa source
  fp := CStr.percentD source_port.toNat
  dest := inet_ntoa dest
  tp := CStr.percentD destination_port.toNat
  tcpData := tcpData
  size := size

namespace NoseTcp

def tcp_protocol_packet_callback (f : Frame) : Option (Option SendCall) := do
  let source_port ← f.u16 (14 + 20)
  let destination_port ← f.u16 (14 + 20 + 2)
  let tcp_offset := (← f.u8 (14 + 20 + 12)) >>> 4
  let header_length := tcp_offset.toNat * 4
  let _sequence ← f.u32 (14 + 20 + 4)
  let _acknowledgement ← f.u32 (14 + 20 + 8)
  let _windows ← f.u16 (14 + 20 + 14)
  let _urgent_pointer ← f.u16 (14 + 20 + 18)
  let _flags ← f.u8 (14 + 20 + 13)
  let _checksum ← f.u16 (14 + 20 + 16)
  let ip_source ← f.u32Addr (14 + 12)
  let ip_destination ← f.u32Addr (14 + 16)
  let TcpData_Len := uintSub (uintSub (uintSub f.caplen 14) 20) header_length
  some (SENDTCP2CATS_LO
    (sendCall ip_source ip_destination source_port destination_port (14 + 20 + header_length) TcpData_Len))

def ip_protocol_packet_callback (f : Frame) : Option (Option SendCall) := do
  let _checksum ← f.u16 (14 + 10)
  let _ip_header_length ← f.u8 14
  let _tos ← f.u8 (14 + 1)
  let _offset ← f.u16 (14 + 6)
  if (← f.u8 (14 + 9)) = 6 then tcp_protocol_packet_callback f else some none

def tcp_ethernet_protocol_packet_callback (f : Frame) : Option (Option SendCall) := do
  if (← f.u16 12) = 0x0800 then ip_protocol_packet_callback f else some none

end NoseTcp

namespace NoseUdp

def udp_protocol_packet_callback (f : Frame) : Option (Option SendCall) := do
  let source_port ← f.u16 (14 + 20)
  let destination_port ← f.u16 (14 + 20 + 2)
  let length ← f.u16 (14 + 20 + 4)
  let _checksum ← f.u16 (14 + 20 + 6)
  let ip_source ← f.u32Addr (14 + 12)
  let ip_destination ← f.u32Addr (14 + 16)
  some (SENDTCP2CATS_LO
    (sendCall ip_source ip_destination source_port destination_port (14 + 20) length.toNat))

/-- It also prints the fields of the header. -/
def ip_protocol_packet_callback (f : Frame) : Option (Option SendCall) := do
  let _checksum ← f.u16 (14 + 10)
  let _ip_header_length ← f.u8 14
  let _tos ← f.u8 (14 + 1)
  let _offset ← f.u16 (14 + 6)
  let _ip_length ← f.u16 (14 + 2)
  let _ip_id ← f.u16 (14 + 4)
  let _ip_ttl ← f.u8 (14 + 8)
  let ip_protocol ← f.u8 (14 + 9)
  let _ip_souce_address ← f.u32Addr (14 + 12)
  let _ip_destination_address ← f.u32Addr (14 + 16)
  if ip_protocol = 17 then udp_protocol_packet_callback f else some none

/-- It also prints the hardware addresses. -/
def udp_ethernet_protocol_packet_callback (f : Frame) : Option (Option SendCall) := do
  let ethernet_type ← f.u16 12
  let _ether_shost ← f.read 6 6 ()
  let _ether_dhost ← f.read 0 6 ()
  if ethernet_type = 0x0800 then ip_protocol_packet_callback f else some none

end NoseUdp

/-! ## What they read -/

theorem Frame.read_eq_some {α : Type} {f : Frame} {i n : Nat} {field : α} (h : i + n ≤ f.caplen) :
    f.read i n field = some field := if_pos h

theorem Frame.le_of_read {α : Type} {f : Frame} {i n : Nat} {field x : α}
    (h : f.read i n field = some x) : i + n ≤ f.caplen := by
  rw [Frame.read] at h
  split at h
  · assumption
  · cases h

/-- The length of the TCP header that the code reads. -/
def Frame.tcpHeader (f : Frame) : Nat := (f.byte 46 >>> 4).toNat * 4

/-- The call for a TCP header behind 20 bytes of IP header. -/
def NoseTcp.call (f : Frame) : SendCall :=
  sendCall (f.addr 26) (f.addr 30) (f.half 34) (f.half 36) (34 + f.tcpHeader)
    (uintSub (uintSub (uintSub f.caplen 14) 20) f.tcpHeader)

/-- The call for a UDP header behind 20 bytes of IP header. -/
def NoseUdp.call (f : Frame) : SendCall :=
  sendCall (f.addr 26) (f.addr 30) (f.half 34) (f.half 36) 34 (f.half 38).toNat

/-- Reads up to the offset `n`, and nothing else can fail. -/
theorem eq_ite_of_reads {α : Type} {o : Option α} {a : α} {n caplen : Nat}
    (h : n ≤ caplen → o = some a) (h' : ∀ x, o = some x → n ≤ caplen) :
    o = if n ≤ caplen then some a else none := by
  split
  · next hn => exact h hn
  · next hn => exact Option.eq_none_iff_forall_ne_some.mpr fun x hx => hn (h' x hx)

theorem NoseTcp.tcp_protocol_eq (f : Frame) :
    tcp_protocol_packet_callback f =
      if 54 ≤ f.caplen then some (SENDTCP2CATS_LO (call f)) else none := by
  refine eq_ite_of_reads (fun h => ?_) (fun r hr => ?_)
  · simp only [tcp_protocol_packet_callback, Frame.u8, Frame.u16, Frame.u32, Frame.u32Addr]
    repeat rw [Frame.read_eq_some (by omega)]
    rfl
  · -- the last field read is `urgent_pointer`
    simp only [tcp_protocol_packet_callback, Frame.u16, Option.bind_eq_bind,
      Option.bind_eq_some_iff] at hr
    obtain ⟨_, -, _, -, _, -, _, -, _, -, _, -, _, hlast, -⟩ := hr
    exact Frame.le_of_read hlast

theorem NoseTcp.ip_protocol_eq (f : Frame) :
    ip_protocol_packet_callback f =
      if 26 ≤ f.caplen then
        if f.byte 23 = 6 then tcp_protocol_packet_callback f else some none
      else none := by
  rw [ip_protocol_packet_callback]
  by_cases h : 26 ≤ f.caplen
  · simp only [Frame.u8, Frame.u16]
    repeat rw [Frame.read_eq_some (by omega)]
    rw [if_pos h]
    rfl
  · have hfirst : f.u16 (14 + 10) = none := if_neg (by omega)
    rw [hfirst, if_neg h]
    rfl

/-- **What the TCP callback does**: each protocol is looked at when its fields were captured. -/
theorem NoseTcp.callback_eq (f : Frame) :
    tcp_ethernet_protocol_packet_callback f =
      if 14 ≤ f.caplen then
        if f.half 12 = 0x0800 then
          if 26 ≤ f.caplen then
            if f.byte 23 = 6 then
              if 54 ≤ f.caplen then some (SENDTCP2CATS_LO (call f)) else none
            else some none
          else none
        else some none
      else none := by
  rw [tcp_ethernet_protocol_packet_callback]
  by_cases h : 14 ≤ f.caplen
  · rw [Frame.u16, Frame.read_eq_some (by omega), if_pos h, ← tcp_protocol_eq, ← ip_protocol_eq]
    rfl
  · have hfirst : f.u16 12 = none := if_neg (by omega)
    rw [hfirst, if_neg h]
    rfl

theorem NoseUdp.udp_protocol_eq (f : Frame) :
    udp_protocol_packet_callback f =
      if 42 ≤ f.caplen then some (SENDTCP2CATS_LO (call f)) else none := by
  refine eq_ite_of_reads (fun h => ?_) (fun r hr => ?_)
  · simp only [udp_protocol_packet_callback, Frame.u16, Frame.u32Addr]
    repeat rw [Frame.read_eq_some (by omega)]
    rfl
  · simp only [udp_protocol_packet_callback, Frame.u16, Option.bind_eq_bind,
      Option.bind_eq_some_iff] at hr
    obtain ⟨_, -, _, -, _, -, _, hlast, -⟩ := hr
    exact Frame.le_of_read hlast

theorem NoseUdp.ip_protocol_eq (f : Frame) :
    ip_protocol_packet_callback f =
      if 34 ≤ f.caplen then
        if f.byte 23 = 17 then udp_protocol_packet_callback f else some none
      else none := by
  rw [ip_protocol_packet_callback]
  by_cases h : 34 ≤ f.caplen
  · simp only [Frame.u8, Frame.u16, Frame.u32Addr]
    repeat rw [Frame.read_eq_some (by omega)]
    rw [if_pos h]
    rfl
  · rw [if_neg h, Option.eq_none_iff_forall_ne_some]
    intro r hr
    simp only [Frame.u32Addr, Option.bind_eq_bind, Option.bind_eq_some_iff] at hr
    obtain ⟨_, -, _, -, _, -, _, -, _, -, _, -, _, -, _, -, _, -, _, hlast, -⟩ := hr
    exact h (Frame.le_of_read hlast)

/-- **What the UDP callback does.** -/
theorem NoseUdp.callback_eq (f : Frame) :
    udp_ethernet_protocol_packet_callback f =
      if 14 ≤ f.caplen then
        if f.half 12 = 0x0800 then
          if 34 ≤ f.caplen then
            if f.byte 23 = 17 then
              if 42 ≤ f.caplen then some (SENDTCP2CATS_LO (call f)) else none
            else some none
          else none
        else some none
      else none := by
  rw [udp_ethernet_protocol_packet_callback]
  by_cases h : 14 ≤ f.caplen
  · simp only [Frame.u16]
    repeat rw [Frame.read_eq_some (by omega)]
    rw [if_pos h, ← udp_protocol_eq, ← ip_protocol_eq]
    rfl
  · have hfirst : f.u16 12 = none := if_neg (by omega)
    rw [hfirst, if_neg h]
    rfl

end Netflow
