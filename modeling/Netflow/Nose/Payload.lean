import Netflow.Nose.Callbacks

set_option autoImplicit false

/-! # The payload the callbacks take out of a frame

A frame of Ethernet II that was captured whole says by its length fields where the payload stands:
behind the options of both headers, and before the padding that follows the IP datagram. The callbacks
take the TCP or UDP header to stand behind 20 bytes of IP header. The TCP callback counts the padding as
payload, and the UDP callback starts at its header and takes the length that counts it.
-/

namespace Netflow

/-- An unfragmented IPv4 datagram of `total` bytes with `4 * ihl` bytes of header, captured whole. -/
structure IsIpFrame (f : Frame) (ihl total : Nat) : Prop where
  ethernet_type : f.half 12 = 0x0800
  version_ihl : (f.byte 14).toNat = 4 * 16 + ihl
  ihl_ge : 5 ≤ ihl
  ihl_le : ihl ≤ 15
  ip_length : (f.half 16).toNat = total
  unfragmented : (f.half 20).toNat % 16384 = 0
  captured : 14 + total ≤ f.caplen

/-- A TCP segment in a frame, with `4 * offset` bytes of header. -/
structure IsTcpFrame (f : Frame) (ihl offset total : Nat) : Prop extends IsIpFrame f ihl total where
  ip_protocol : f.byte 23 = 6
  tcp_offset : (f.byte (14 + 4 * ihl + 12)).toNat / 16 = offset
  offset_ge : 5 ≤ offset
  whole : 4 * ihl + 4 * offset ≤ total

/-- A UDP datagram of `length` bytes in a frame. -/
structure IsUdpFrame (f : Frame) (ihl length total : Nat) : Prop extends IsIpFrame f ihl total where
  ip_protocol : f.byte 23 = 17
  udp_length : (f.half (14 + 4 * ihl + 4)).toNat = length
  length_ge : 8 ≤ length
  whole : 4 * ihl + length ≤ total

/-- The call for a payload of `size` bytes at the offset `start`, when there is a payload: with the
addresses of the IP header and the ports behind it. -/
def payloadCall (f : Frame) (ihl start size : Nat) : Option SendCall :=
  if 0 < size then
    some (sendCall (f.addr 26) (f.addr 30) (f.half (14 + 4 * ihl)) (f.half (14 + 4 * ihl + 2)) start size)
  else none

/-- The call the payload of a TCP segment asks for. -/
def tcpPayloadCall (f : Frame) (ihl offset total : Nat) : Option SendCall :=
  payloadCall f ihl (14 + 4 * ihl + 4 * offset) (total - (4 * ihl + 4 * offset))

/-- The call the payload of a UDP datagram asks for. -/
def udpPayloadCall (f : Frame) (ihl length : Nat) : Option SendCall :=
  payloadCall f ihl (14 + 4 * ihl + 8) (length - 8)

/-- What the TCP callback reads at its fixed offsets agrees with the segment: when there is no payload,
the header it reads ends with the frame; otherwise it reads the ports of the segment and the end of its
header, and nothing follows the datagram. -/
def TcpReadRight (f : Frame) (ihl offset total : Nat) : Prop :=
  if total = 4 * ihl + 4 * offset then 34 + f.tcpHeader = f.caplen
  else
    f.half 34 = f.half (14 + 4 * ihl) ∧ f.half 36 = f.half (14 + 4 * ihl + 2) ∧
      34 + f.tcpHeader = 14 + 4 * ihl + 4 * offset ∧ f.caplen = 14 + total

/-! ## The texts tell the ports apart -/

theorem percentD_port_inj {p q : UInt16} (h : CStr.percentD p.toNat = CStr.percentD q.toNat) :
    p = q := by
  have hp := p.toNat_lt
  have hq := q.toNat_lt
  have hatoi := congrArg atoi h
  rw [atoi_percentD (by omega), atoi_percentD (by omega), Option.some_inj] at hatoi
  exact UInt16.toNat_inj.mp (Int.ofNat_inj.mp hatoi)

theorem sendCall_inj {source dest : in_addr} {sp sp' dp dp' : UInt16} {start start' size size' : Nat} :
    sendCall source dest sp dp start size = sendCall source dest sp' dp' start' size' ↔
      sp = sp' ∧ dp = dp' ∧ start = start' ∧ size = size' := by
  constructor
  · intro h
    simp only [sendCall, SendCall.mk.injEq] at h
    exact ⟨percentD_port_inj h.2.1, percentD_port_inj h.2.2.2.1, h.2.2.2.2.1, h.2.2.2.2.2⟩
  · rintro ⟨rfl, rfl, rfl, rfl⟩
    rfl

/-! ## TCP -/

theorem Frame.tcpHeader_lt (f : Frame) : f.tcpHeader ≤ 60 := by
  have hlt := (f.byte 46).toNat_lt
  rw [tcpHeader, UInt8.toNat_shiftRight, show (4 : Byte).toNat % 8 = 4 from rfl,
    Nat.shiftRight_eq_div_pow]
  omega

/-- `TcpData_Len`: the bytes behind the header that was read, or a number close to `2^32` when the frame
ends before. -/
theorem NoseTcp.size_call {f : Frame} (h : 34 ≤ f.caplen) :
    (NoseTcp.call f).size =
      if 34 + f.tcpHeader ≤ f.caplen then f.caplen - (34 + f.tcpHeader)
      else f.caplen + 4294967296 - (34 + f.tcpHeader) := by
  have hlt := f.caplen_lt
  have hheader := f.tcpHeader_lt
  show uintSub (uintSub (uintSub f.caplen 14) 20) f.tcpHeader = _
  have hcaplen : f.caplen < 4294967296 := hlt
  simp only [uintSub]
  split <;> omega

theorem IsTcpFrame.callback_eq {f : Frame} {ihl offset total : Nat}
    (h : IsTcpFrame f ihl offset total) :
    NoseTcp.tcp_ethernet_protocol_packet_callback f = some (SENDTCP2CATS_LO (NoseTcp.call f)) := by
  have hihl := h.ihl_ge
  have hoff := h.offset_ge
  have hwhole := h.whole
  have hcaptured := h.captured
  rw [NoseTcp.callback_eq, if_pos (by omega), if_pos h.ethernet_type, if_pos (by omega),
    if_pos h.ip_protocol, if_pos (by omega)]

/-- **TCP payload extraction**: the callback passes on exactly the payload of the segment, or nothing
when there is none, exactly when what it reads at its fixed offsets agrees with the segment. -/
theorem tcp_payload_extracted {f : Frame} {ihl offset total : Nat}
    (h : IsTcpFrame f ihl offset total) :
    NoseTcp.tcp_ethernet_protocol_packet_callback f = some (tcpPayloadCall f ihl offset total) ↔
      TcpReadRight f ihl offset total := by
  have hihl := h.ihl_ge
  have hoff := h.offset_ge
  have hwhole := h.whole
  have hcaptured := h.captured
  have hheader := f.tcpHeader_lt
  have hlt : f.caplen < 4294967296 := f.caplen_lt
  have hsize := NoseTcp.size_call (f := f) (by omega)
  rw [h.callback_eq, Option.some_inj, tcpPayloadCall, payloadCall, SENDTCP2CATS_LO, TcpReadRight]
  -- without a payload nothing is to be passed on
  by_cases hempty : total = 4 * ihl + 4 * offset
  · rw [if_pos hempty, if_neg (show ¬0 < total - (4 * ihl + 4 * offset) by omega)]
    split
    · next hpos =>
        refine ⟨nofun, fun heq => ?_⟩
        rw [hsize, if_pos (by omega)] at hpos
        omega
    · next hzero =>
        refine ⟨fun _ => ?_, fun _ => rfl⟩
        rw [hsize] at hzero
        split at hzero <;> omega
  · rw [if_neg hempty, if_pos (show 0 < total - (4 * ihl + 4 * offset) by omega)]
    -- the addresses and ports are read at their places; the start and the length decide
    have hcall : NoseTcp.call f = sendCall (f.addr 26) (f.addr 30) (f.half 34) (f.half 36)
        (34 + f.tcpHeader) (NoseTcp.call f).size := rfl
    split
    · next hpos =>
        rw [Option.some_inj, hcall, sendCall_inj, hsize]
        refine and_congr_right fun _ => and_congr_right fun _ => ?_
        constructor
        · rintro ⟨hstart, hlen⟩
          rw [if_pos (by omega)] at hlen
          omega
        · rintro ⟨hstart, hlen⟩
          rw [if_pos (by omega)]
          omega
    · next hzero =>
        refine ⟨nofun, fun ⟨_, _, hstart, hlen⟩ => ?_⟩
        rw [hsize, if_pos (by omega)] at hzero
        omega

/-- Without IP options the callback is right exactly when no padding follows the datagram. -/
theorem tcpReadRight_five {f : Frame} {offset total : Nat} (h : IsTcpFrame f 5 offset total) :
    TcpReadRight f 5 offset total ↔ f.caplen = 14 + total := by
  have hheader : f.tcpHeader = 4 * offset := by
    rw [Frame.tcpHeader, ← h.tcp_offset, UInt8.toNat_shiftRight, show (4 : Byte).toNat % 8 = 4 from rfl,
      Nat.shiftRight_eq_div_pow, Nat.mul_comm]
  rw [TcpReadRight, hheader]
  split
  · omega
  · exact ⟨fun h' => h'.2.2.2, fun h' => ⟨rfl, rfl, by omega, h'⟩⟩

/-! ## Frames of TCP

The frames below come from 10.0.0.1 and go to 10.0.0.2. -/

/-- The headers of Ethernet and IP in front of a datagram of `total` bytes. -/
def ipHeaders (ihl total protocol : Byte) : List Byte :=
  [0, 0, 0, 0, 0, 0, 0, 0, 0, 0, 0, 0, 8, 0, 64 + ihl, 0, 0, total, 0, 0, 64, 0, 64, protocol, 0, 0,
    10, 0, 0, 1, 10, 0, 0, 2]

/-- A TCP header of 20 bytes, with the ports 1234 and 80. -/
def tcpHeader20 : List Byte := [4, 210, 0, 80, 0, 0, 0, 0, 0, 0, 0, 0, 80, 16, 0, 0, 0, 0, 0, 0]

/-- A payload of one byte is passed on. -/
theorem tcp_payload_extracted_one : ∃ f, IsTcpFrame f 5 5 41 ∧ f.caplen = 55 ∧
    NoseTcp.tcp_ethernet_protocol_packet_callback f = some (tcpPayloadCall f 5 5 41) := by
  have h : IsTcpFrame ⟨ipHeaders 5 41 6 ++ tcpHeader20 ++ [71], by decide⟩ 5 5 41 := by
    refine ⟨⟨?_, ?_, ?_, ?_, ?_, ?_, ?_⟩, ?_, ?_, ?_, ?_⟩ <;> decide +kernel
  exact ⟨_, h, rfl, (tcp_payload_extracted h).mpr ((tcpReadRight_five h).mpr rfl)⟩

/-- The six bytes that pad a segment without a payload to the shortest frame are passed on. -/
theorem tcp_padding_sent : ¬∀ f ihl offset total, IsTcpFrame f ihl offset total →
    NoseTcp.tcp_ethernet_protocol_packet_callback f = some (tcpPayloadCall f ihl offset total) := by
  intro hall
  have h : IsTcpFrame ⟨ipHeaders 5 40 6 ++ tcpHeader20 ++ [0, 0, 0, 0, 0, 0], by decide⟩ 5 5 40 := by
    refine ⟨⟨?_, ?_, ?_, ?_, ?_, ?_, ?_⟩, ?_, ?_, ?_, ?_⟩ <;> decide +kernel
  have hsent := hall _ _ _ _ h
  rw [h.callback_eq, Option.some_inj] at hsent
  have hnone := congrArg Option.isSome hsent
  revert hnone
  decide +kernel

/-! ## UDP -/

theorem IsUdpFrame.callback_eq {f : Frame} {ihl length total : Nat}
    (h : IsUdpFrame f ihl length total) :
    NoseUdp.udp_ethernet_protocol_packet_callback f = some (SENDTCP2CATS_LO (NoseUdp.call f)) := by
  have hihl := h.ihl_ge
  have hlength := h.length_ge
  have hwhole := h.whole
  have hcaptured := h.captured
  rw [NoseUdp.callback_eq, if_pos (by omega), if_pos h.ethernet_type, if_pos (by omega),
    if_pos h.ip_protocol, if_pos (by omega)]

/-- **UDP payload extraction**: the callback is right only about datagrams without a payload, and only
when the two bytes it takes for the length are zero. -/
theorem udp_payload_extracted {f : Frame} {ihl length total : Nat}
    (h : IsUdpFrame f ihl length total) :
    NoseUdp.udp_ethernet_protocol_packet_callback f = some (udpPayloadCall f ihl length) ↔
      length = 8 ∧ f.half 38 = 0 := by
  have hihl := h.ihl_ge
  have hlength := h.length_ge
  rw [h.callback_eq, Option.some_inj, udpPayloadCall, payloadCall, SENDTCP2CATS_LO]
  have hzero : f.half 38 = 0 ↔ ¬0 < (NoseUdp.call f).size := by
    show f.half 38 = 0 ↔ ¬0 < (f.half 38).toNat
    rw [← UInt16.toNat_inj]
    exact ⟨fun heq => by rw [heq]; decide, fun hnot => Nat.eq_zero_of_not_pos hnot⟩
  rw [hzero]
  by_cases hcalls : 0 < (NoseUdp.call f).size
  · rw [if_pos hcalls]
    refine ⟨fun heq => ?_, fun hright => absurd hcalls hright.2⟩
    split at heq
    · -- the pointer stands at the IP options or at the UDP header
      have hstart : (34 : Nat) = 14 + 4 * ihl + 8 := (sendCall_inj.mp (Option.some.inj heq)).2.2.1
      omega
    · cases heq
  · rw [if_neg hcalls]
    split
    · refine ⟨nofun, fun hright => ?_⟩
      omega
    · exact ⟨fun _ => ⟨by omega, hcalls⟩, fun _ => rfl⟩

/-- Without IP options the two bytes are the length of the datagram, so the callback is never right. -/
theorem udp_never_right {f : Frame} {length total : Nat} (h : IsUdpFrame f 5 length total) :
    ¬(length = 8 ∧ f.half 38 = 0) := by
  rintro ⟨-, hzero⟩
  have hlength := h.udp_length
  have hge := h.length_ge
  have heq : (f.half 38).toNat = length := hlength
  rw [hzero] at heq
  have hnone : (0 : UInt16).toNat = 0 := rfl
  omega

/-- With four bytes of IP options, an empty datagram from port 0 is passed over. -/
theorem udp_payload_extracted_empty : ∃ f, IsUdpFrame f 6 8 32 ∧
    NoseUdp.udp_ethernet_protocol_packet_callback f = some (udpPayloadCall f 6 8) := by
  have h : IsUdpFrame
      ⟨ipHeaders 6 32 17 ++ [1, 1, 1, 1] ++ [0, 0, 0, 53, 0, 8, 0, 0], by decide⟩ 6 8 32 := by
    refine ⟨⟨?_, ?_, ?_, ?_, ?_, ?_, ?_⟩, ?_, ?_, ?_, ?_⟩ <;> decide +kernel
  exact ⟨_, h, (udp_payload_extracted h).mpr ⟨rfl, by decide +kernel⟩⟩

/-- Of a datagram with one byte of payload the header is passed on too. -/
theorem udp_header_sent : ¬∀ f ihl length total, IsUdpFrame f ihl length total →
    NoseUdp.udp_ethernet_protocol_packet_callback f = some (udpPayloadCall f ihl length) := by
  intro hall
  have h : IsUdpFrame ⟨ipHeaders 5 29 17 ++ [4, 210, 0, 53, 0, 9, 0, 0] ++ [71], by decide⟩ 5 9 29 := by
    refine ⟨⟨?_, ?_, ?_, ?_, ?_, ?_, ?_⟩, ?_, ?_, ?_, ?_⟩ <;> decide +kernel
  have hsent := hall _ _ _ _ h
  rw [h.callback_eq, Option.some_inj] at hsent
  have hstart := congrArg (Option.map SendCall.tcpData) hsent
  revert hstart
  decide +kernel

end Netflow
