import Netflow.Basic.Base64Decode
import Netflow.Basic.Decimal
import Netflow.Iksemel.Text
import Netflow.Server.Hook

set_option autoImplicit false

/-! # A captured payload on its way to the client (`cdogEar.c`, `CuteCatDlg.cpp`)

`SendTcp2Cats` writes the addresses, the ports, the numbers and the encoded payload into one message,
and `IOXMLMessage` of the client takes them out of the element its parser builds from it. Following a
NULL pointer and reading behind the decoded block is undefined behaviour and gives `none`; memory is
taken to be there.
-/

namespace Netflow

/-! ## The message -/

/-- The text the format of `SendTcp2Cats` stands for, of any length. -/
def packetText (p : Packet) (size1 iMsgNumID : Nat) (pEnBody : CStr) : CStr :=
  CStr.lit "<message from='" ++ p.source ++ CStr.lit "' fp='" ++ p.fp ++ CStr.lit "' to='" ++
    p.dest ++ CStr.lit "' tp='" ++ p.tp ++ CStr.lit "'><body size='" ++ CStr.percentD size1 ++
    CStr.lit "' rawsize='" ++ CStr.percentD p.size ++ CStr.lit "' sn='" ++
    CStr.percentD iMsgNumID ++ CStr.lit "'>" ++ pEnBody ++ CStr.lit "</body></message>"

/-- `size1` of `SendTcp2Cats`. -/
def Packet.size1 (p : Packet) : Nat :=
  if MAX_TCPDATA_SIZE < p.size then MAX_TCPDATA_SIZE else p.size

theorem size1_eq (p : Packet) : p.size1 = min p.size 3072 := by
  rw [Packet.size1, MAX_TCPDATA_SIZE]
  split <;> omega

/-- `message` of `SendTcp2Cats` for a payload. -/
def Packet.message (p : Packet) (iMsgNumID : Nat) : Option CStr :=
  (base64_encode p.tcpData p.size1).map fun pEnBody => Server.packetMessage p p.size1 iMsgNumID pEnBody

/-- **The message goes to the client and to the hookers of its dog.** -/
theorem Server.SendTcp2Cats_eq (p : Packet) (i : Slot) (s : Server) :
    s.SendTcp2Cats p i =
      match s.IoGetSendMsgCell i with
      | (none, s) => some (false, s)
      | (some pDogMsg, s) =>
          (p.message (((s.ClientInfo i).iMsgNumID + 1) % 4294967296)).bind fun message =>
            (((s.setClient i fun ci => { ci with
              iMsgNumID := (ci.iMsgNumID + 1) % 4294967296 }).pushString pDogMsg
                message).IoPutSendMsgCell pDogMsg).sendToHookers i message := by
  rw [SendTcp2Cats]
  obtain ⟨_ | pDogMsg, s₁⟩ := s.IoGetSendMsgCell i
  · rfl
  · show (base64_encode p.tcpData p.size1).bind _ =
      ((base64_encode p.tcpData p.size1).map _).bind _
    rw [Option.bind_map]
    refine congrArg _ (funext fun pEnBody => ?_)
    show Server.sendToHookers i (Server.packetMessage p p.size1
      ((s₁.setClient i _).ClientInfo i).iMsgNumID pEnBody) _ = _
    rw [Server.setClient_ClientInfo_self]
    rfl

/-- The element of a message. -/
def packetNode (p : Packet) (size1 iMsgNumID : Nat) (pEnBody : CStr) : Iks :=
  .tag (CStr.lit "message")
    [(CStr.lit "from", p.source), (CStr.lit "fp", p.fp), (CStr.lit "to", p.dest), (CStr.lit "tp", p.tp)]
    [.tag (CStr.lit "body")
      [(CStr.lit "size", CStr.percentD size1), (CStr.lit "rawsize", CStr.percentD p.size),
        (CStr.lit "sn", CStr.percentD iMsgNumID)]
      [.cdata pEnBody]]

/-- The parts of the format between the values. -/
theorem formatParts :
    (CStr.lit "<message from='").chars =
      ascii '<' :: (CStr.lit "message").chars ++ ascii ' ' :: (CStr.lit "from").chars ++
        [ascii '=', ascii '\''] ∧
    (CStr.lit "' fp='").chars =
      ascii '\'' :: ascii ' ' :: (CStr.lit "fp").chars ++ [ascii '=', ascii '\''] ∧
    (CStr.lit "' to='").chars =
      ascii '\'' :: ascii ' ' :: (CStr.lit "to").chars ++ [ascii '=', ascii '\''] ∧
    (CStr.lit "' tp='").chars =
      ascii '\'' :: ascii ' ' :: (CStr.lit "tp").chars ++ [ascii '=', ascii '\''] ∧
    (CStr.lit "'><body size='").chars =
      ascii '\'' :: ascii '>' :: ascii '<' :: (CStr.lit "body").chars ++ ascii ' ' ::
        (CStr.lit "size").chars ++ [ascii '=', ascii '\''] ∧
    (CStr.lit "' rawsize='").chars =
      ascii '\'' :: ascii ' ' :: (CStr.lit "rawsize").chars ++ [ascii '=', ascii '\''] ∧
    (CStr.lit "' sn='").chars =
      ascii '\'' :: ascii ' ' :: (CStr.lit "sn").chars ++ [ascii '=', ascii '\''] ∧
    (CStr.lit "'>").chars = [ascii '\'', ascii '>'] ∧
    (CStr.lit "</body></message>").chars =
      ascii '<' :: ascii '/' :: (CStr.lit "body").chars ++ ascii '>' :: ascii '<' :: ascii '/' ::
        (CStr.lit "message").chars ++ [ascii '>'] := by
  decide +kernel

/-- **The format writes the element.** -/
theorem text_packetNode (p : Packet) (size1 iMsgNumID : Nat) (pEnBody : CStr) :
    (packetText p size1 iMsgNumID pEnBody).chars = (packetNode p size1 iMsgNumID pEnBody).text := by
  obtain ⟨hfrom, hfp, hto, htp, hbody, hraw, hsn, hend, hclose⟩ := formatParts
  simp only [packetText, packetNode, CStr.chars_append, Iks.text, Iks.texts, attribText,
    List.flatMap_cons, List.flatMap_nil, hfrom, hfp, hto, htp, hbody, hraw, hsn, hend, hclose,
    List.append_assoc, List.cons_append, List.nil_append, List.append_nil]

/-- The characters of the format and of the values. -/
theorem length_packetText (p : Packet) (size1 iMsgNumID : Nat) (pEnBody : CStr) :
    (packetText p size1 iMsgNumID pEnBody).chars.length = 83 + p.source.chars.length +
      p.fp.chars.length + p.dest.chars.length + p.tp.chars.length +
      (CStr.percentD size1).chars.length + (CStr.percentD p.size).chars.length +
      (CStr.percentD iMsgNumID).chars.length + pEnBody.chars.length := by
  have hformat : (CStr.lit "<message from='").chars.length + (CStr.lit "' fp='").chars.length +
      (CStr.lit "' to='").chars.length + (CStr.lit "' tp='").chars.length +
      (CStr.lit "'><body size='").chars.length + (CStr.lit "' rawsize='").chars.length +
      (CStr.lit "' sn='").chars.length + (CStr.lit "'>").chars.length +
      (CStr.lit "</body></message>").chars.length = 83 := by
    decide +kernel
  simp only [packetText, CStr.chars_append, List.length_append]
  omega

/-- The characters of the format and the longest values leave room in the buffer. -/
theorem length_packetText_le {p : Packet} {size1 iMsgNumID : Nat} {pEnBody : CStr}
    (hsource : p.source.chars.length ≤ 15) (hfp : p.fp.chars.length ≤ 5)
    (hdest : p.dest.chars.length ≤ 15) (htp : p.tp.chars.length ≤ 5)
    (hbody : pEnBody.chars.length ≤ 4096) :
    (packetText p size1 iMsgNumID pEnBody).chars.length < 4096 + 512 := by
  have hsize := CStr.length_percentD_le size1
  have hraw := CStr.length_percentD_le p.size
  have hsn := CStr.length_percentD_le iMsgNumID
  rw [length_packetText]
  omega

/-- A message is the part of the text that fits the buffer. -/
theorem chars_packetMessage (p : Packet) (size1 iMsgNumID : Nat) (pEnBody : CStr) :
    (Server.packetMessage p size1 iMsgNumID pEnBody).chars =
      (packetText p size1 iMsgNumID pEnBody).chars.take (4096 + 512 - 1) := by
  rw [Server.packetMessage, CStr.snprintf, CStr.chars_take, packetText]

/-- A text that fits the buffer is not cut. -/
theorem packetMessage_eq {p : Packet} {size1 iMsgNumID : Nat} {pEnBody : CStr}
    (h : (packetText p size1 iMsgNumID pEnBody).chars.length < 4096 + 512) :
    Server.packetMessage p size1 iMsgNumID pEnBody = packetText p size1 iMsgNumID pEnBody := by
  rw [← CStr.snprintf_of_fits h]
  rfl

end Netflow
