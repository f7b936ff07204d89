import Netflow.Nose.Payload

set_option autoImplicit false

/-! # What the callbacks read of a frame

The lengths in a frame are the sender's, and a frame may be cut short. The callbacks test neither: they
read the headers at fixed offsets, and the subtraction that gives `TcpData_Len` is one of unsigned
numbers, so that the test of `SENDTCP2CATS_LO` for a positive length does not see a header that ends
behind the frame.
-/

namespace Netflow

/-- Nothing behind the frame is read: the fields of the headers are captured, so are the bytes that
`base64_encode` reads for the message, and the length passed on is not longer than what was captured
behind the pointer. -/
structure NoOverRead (f : Frame) (result : Option (Option SendCall)) : Prop where
  fields : result ≠ none
  payload : ∀ c, result = some (some c) → ∀ iMsgNumID, (c.packet f).message iMsgNumID ≠ none
  length : ∀ c, result = some (some c) → c.tcpData + c.size ≤ f.caplen

/-- The frames the TCP callback reads nothing behind. -/
def TcpCaptured (f : Frame) : Prop :=
  14 ≤ f.caplen ∧ (f.half 12 = 0x0800 →
    26 ≤ f.caplen ∧ (f.byte 23 = 6 → 54 ≤ f.caplen ∧ 34 + f.tcpHeader ≤ f.caplen))

/-- The frames the UDP callback reads nothing behind. -/
def UdpCaptured (f : Frame) : Prop :=
  14 ≤ f.caplen ∧ (f.half 12 = 0x0800 →
    34 ≤ f.caplen ∧ (f.byte 23 = 17 → 42 ≤ f.caplen ∧ 34 + (f.half 38).toNat ≤ f.caplen))

/-! ## The three results of a callback -/

theorem not_noOverRead_none (f : Frame) : ¬NoOverRead f none := fun h => h.fields rfl

theorem noOverRead_silent (f : Frame) : NoOverRead f (some none) :=
  ⟨by simp, fun c h => by simp at h, fun c h => by simp at h⟩

/-- The bytes of a call are read when they were captured. -/
theorem message_of_captured {f : Frame} {c : SendCall} (hpos : 0 < c.size)
    (h : c.tcpData + c.size ≤ f.caplen) (iMsgNumID : Nat) :
    (c.packet f).message iMsgNumID ≠ none := by
  have hsize : (c.packet f).size1 = min c.size 3072 := size1_eq _
  have hmem : (c.packet f).tcpData.length = f.caplen - c.tcpData := List.length_drop ..
  obtain ⟨str, hencode, -⟩ := base64_encode_eq (show 0 < (c.packet f).size1 by omega)
    (show (c.packet f).size1 ≤ (c.packet f).tcpData.length by omega)
  rw [Packet.message, hencode]
  simp

/-- A call that is made only with a positive length. -/
theorem noOverRead_call {f : Frame} {c : SendCall} :
    NoOverRead f (some (SENDTCP2CATS_LO c)) ↔ (0 < c.size → c.tcpData + c.size ≤ f.caplen) := by
  rw [SENDTCP2CATS_LO]
  split
  · next hpos =>
      constructor
      · exact fun h _ => h.length c rfl
      · intro h
        refine ⟨by simp, fun c' heq => ?_, fun c' heq => ?_⟩
        · cases heq
          exact message_of_captured hpos (h hpos)
        · cases heq
          exact h hpos
  · next hzero => exact iff_of_true (noOverRead_silent f) fun hpos => absurd hpos hzero

/-! ## The callbacks -/

/-- `TcpData_Len` does not wrap exactly when the header that was read ends in the frame. -/
theorem noOverRead_tcp {f : Frame} (h : 54 ≤ f.caplen) :
    NoOverRead f (some (SENDTCP2CATS_LO (NoseTcp.call f))) ↔ 34 + f.tcpHeader ≤ f.caplen := by
  have hlt : f.caplen < 4294967296 := f.caplen_lt
  have hheader := f.tcpHeader_lt
  have hsize := NoseTcp.size_call (f := f) (by omega)
  have hstart : (NoseTcp.call f).tcpData = 34 + f.tcpHeader := rfl
  rw [noOverRead_call, hstart, hsize]
  split <;> omega

theorem noOverRead_udp {f : Frame} (h : 42 ≤ f.caplen) :
    NoOverRead f (some (SENDTCP2CATS_LO (NoseUdp.call f))) ↔ 34 + (f.half 38).toNat ≤ f.caplen := by
  have hsize : (NoseUdp.call f).size = (f.half 38).toNat := rfl
  have hstart : (NoseUdp.call f).tcpData = 34 := rfl
  rw [noOverRead_call, hstart, hsize]
  omega

/-- A result that is reached only when more was captured. -/
theorem noOverRead_ite {f : Frame} {p q : Prop} [Decidable p] {result : Option (Option SendCall)}
    (h : p → (NoOverRead f result ↔ q)) :
    NoOverRead f (if p then result else none) ↔ p ∧ q := by
  split
  · next hp => rw [h hp, and_iff_right hp]
  · next hp => exact iff_of_false (not_noOverRead_none f) fun h' => hp h'.1

/-- A protocol that is looked into when the frame carries it. -/
theorem noOverRead_proto {f : Frame} {p q : Prop} [Decidable p] {result : Option (Option SendCall)}
    (h : NoOverRead f result ↔ q) :
    NoOverRead f (if p then result else some none) ↔ (p → q) := by
  split
  · next hp => rw [h, forall_prop_of_true hp]
  · next hp => exact iff_of_true (noOverRead_silent f) fun hp' => absurd hp' hp

theorem noOverRead_tcp_callback (f : Frame) :
    NoOverRead f (NoseTcp.tcp_ethernet_protocol_packet_callback f) ↔ TcpCaptured f := by
  rw [NoseTcp.callback_eq, TcpCaptured]
  exact noOverRead_ite fun _ => noOverRead_proto (noOverRead_ite fun _ =>
    noOverRead_proto (noOverRead_ite fun h => noOverRead_tcp h))

theorem noOverRead_udp_callback (f : Frame) :
    NoOverRead f (NoseUdp.udp_ethernet_protocol_packet_callback f) ↔ UdpCaptured f := by
  rw [NoseUdp.callback_eq, UdpCaptured]
  exact noOverRead_ite fun _ => noOverRead_proto (noOverRead_ite fun _ =>
    noOverRead_proto (noOverRead_ite fun h => noOverRead_udp h))

/-- **When malformed frames cause no over-reads.** -/
theorem frames_not_over_read (f : Frame) :
    (NoOverRead f (NoseTcp.tcp_ethernet_protocol_packet_callback f) ↔ TcpCaptured f) ∧
      (NoOverRead f (NoseUdp.udp_ethernet_protocol_packet_callback f) ↔ UdpCaptured f) :=
  ⟨noOverRead_tcp_callback f, noOverRead_udp_callback f⟩

/-- The TCP header of 54 captured bytes says that it has 60 bytes, and the UDP header of 42 captured
bytes that the datagram has 1000. -/
theorem frames_over_read :
    (∃ f, f.caplen = 54 ∧ ¬NoOverRead f (NoseTcp.tcp_ethernet_protocol_packet_callback f)) ∧
      ∃ f, f.caplen = 42 ∧ ¬NoOverRead f (NoseUdp.udp_ethernet_protocol_packet_callback f) := by
  refine ⟨⟨⟨ipHeaders 5 40 6 ++ [4, 210, 0, 80, 0, 0, 0, 0, 0, 0, 0, 0, 240, 16, 0, 0, 0, 0, 0, 0],
      by decide⟩,
    rfl, fun h => ?_⟩,
    ⟨ipHeaders 5 28 17 ++ [4, 210, 0, 53, 3, 232, 0, 0], by decide⟩, rfl, fun h => ?_⟩
  · have hend := (((noOverRead_tcp_callback _).mp h).2 (by decide +kernel)).2 (by decide +kernel)
    revert hend
    decide +kernel
  · have hend := (((noOverRead_udp_callback _).mp h).2 (by decide +kernel)).2 (by decide +kernel)
    revert hend
    decide +kernel

end Netflow
