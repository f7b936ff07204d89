import Netflow.Basic.Decimal
import Netflow.Server.Hook

set_option autoImplicit false

/-! # The texts of a captured packet (`NoseTcp.c`, `NoseUdp.c`)

The capture callbacks write the addresses with `inet_ntoa` and the ports with `%d`, so these texts have
only digits, `-` and `.` in them (`numeric`).
-/

namespace Netflow

/-- `struct in_addr`, in the order of the network. -/
structure in_addr where
  b0 : Byte
  b1 : Byte
  b2 : Byte
  b3 : Byte

/-- The dotted quad of an address. -/
def inet_ntoa (a : in_addr) : CStr :=
  CStr.percentD a.b0.toNat ++ CStr.lit "." ++ CStr.percentD a.b1.toNat ++ CStr.lit "." ++
    CStr.percentD a.b2.toNat ++ CStr.lit "." ++ CStr.percentD a.b3.toNat

/-- A packet with the texts the capture callbacks write. -/
def capturedPacket (source dest : in_addr) (source_port destination_port : UInt16)
    (tcpData : List Byte) (size : Nat) : Packet where
  source := inet_ntoa source
  fp := CStr.percentD source_port.toNat
  dest := inet_ntoa dest
  tp := CStr.percentD destination_port.toNat
  tcpData := tcpData
  size := size

/-- A number of a byte has at most three digits. -/
theorem length_byte_le (b : Byte) : (CStr.percentD b.toNat).chars.length ≤ 3 :=
  CStr.length_percentD_le_of_lt (by decide) (by have h := b.toNat_lt; omega)
    (by have h := b.toNat_lt; omega)

theorem length_inet_ntoa_le (a : in_addr) : (inet_ntoa a).chars.length ≤ 15 := by
  have hdot : (CStr.lit ".").chars.length = 1 := by decide +kernel
  have h0 := length_byte_le a.b0
  have h1 := length_byte_le a.b1
  have h2 := length_byte_le a.b2
  have h3 := length_byte_le a.b3
  simp only [inet_ntoa, CStr.chars_append, List.length_append]
  omega

theorem length_port_le (port : UInt16) : (CStr.percentD port.toNat).chars.length ≤ 5 :=
  CStr.length_percentD_le_of_lt (by decide) (by have h := port.toNat_lt; omega)
    (by have h := port.toNat_lt; omega)

/-! ## Their characters -/

/-- A digit, `-` or `.`: what numbers and addresses are written with. -/
def numeric (c : Byte) : Bool := c = 45 || c = 46 || isdigit c

def CStr.Numeric (s : CStr) : Prop := ∀ c ∈ s.chars, numeric c = true

theorem CStr.Numeric.not_mem {s : CStr} {c : Byte} (h : s.Numeric) (hc : numeric c = false) :
    c ∉ s.chars := by
  intro hmem
  rw [h c hmem] at hc
  cases hc

theorem CStr.Numeric.append {s t : CStr} (hs : s.Numeric) (ht : t.Numeric) : (s ++ t).Numeric := by
  intro c hc
  rw [CStr.chars_append, List.mem_append] at hc
  exact hc.elim (hs c) (ht c)

theorem numeric_percentD (n : Nat) : (CStr.percentD n).Numeric := by
  intro c hc
  rw [numeric, Bool.or_eq_true, Bool.or_eq_true, decide_eq_true_eq]
  exact (CStr.mem_percentD hc).imp (fun hminus => Or.inl hminus) id

theorem numeric_inet_ntoa (a : in_addr) : (inet_ntoa a).Numeric := by
  have hdot : (CStr.lit ".").Numeric := by
    show ∀ c ∈ (CStr.lit ".").chars, numeric c = true
    decide +kernel
  exact ((((((numeric_percentD _).append hdot).append (numeric_percentD _)).append hdot).append
    (numeric_percentD _)).append hdot).append (numeric_percentD _)

/-- The texts of a packet are numbers and addresses. -/
structure Packet.Numeric (p : Packet) : Prop where
  source : p.source.Numeric
  fp : p.fp.Numeric
  dest : p.dest.Numeric
  tp : p.tp.Numeric

theorem numeric_capturedPacket (source dest : in_addr) (source_port destination_port : UInt16)
    (tcpData : List Byte) (size : Nat) :
    (capturedPacket source dest source_port destination_port tcpData size).Numeric where
  source := numeric_inet_ntoa source
  fp := numeric_percentD _
  dest := numeric_inet_ntoa dest
  tp := numeric_percentD _

end Netflow
