import Netflow.Basic.CStr
import Netflow.Basic.Config
import Netflow.Lib.Transition

set_option autoImplicit false

/-! # The send buffer of the client (`catEar.c`)

`PushSendStream` and `HandShake` write a text to `VMSendBuf` and store its length; the send loop
writes from `pSndData` on and advances it while something is left. `pSndData` is set to the start of
the buffer by `InitCat` only. So a text that is pushed while another one is pending replaces it, and
a text that is pushed after another one went out in pieces is sent from the middle of the buffer on.
-/

namespace Netflow

namespace CuteCat

/-- `CLIENTSTATUS` of the client. -/
inductive CLIENTSTATUS where
  | CLIENT_UNSHAKE
  | CLIENT_SHAKEED
  | CLIENT_UNLOGIN
  | CLIENT_LOGINED
  | CLIENT_STOPPED
deriving DecidableEq

def HANDSHAKE_STREAM : CStr := CStr.lit
  "<?xml version='1.0' encoding='UTF-8'?><stream:stream to='dog' xmlns='jabber:cat' xmlns:stream='http://etherx.jabber.org/streams'>"

/-- The globals of `catEar.c` that the sending uses. `pSndData` is an offset into `VMSendBuf`;
`pushed` and `sent` are histories: the texts that were to be sent, and the bytes `send` took. -/
structure Cat where
  VMSendBuf : List Byte
  pSndData : Nat
  iCurSendLen : Nat
  Status : CLIENTSTATUS
  nCnnAnOK : Bool
  pushed : List (List Byte)
  sent : List Byte

def InitCat : Cat where
  VMSendBuf := List.replicate MSGINITSIZE 0
  pSndData := 0
  iCurSendLen := 0
  Status := .CLIENT_UNSHAKE
  nCnnAnOK := false
  pushed := []
  sent := []

namespace Cat

/-- `CnnDOG` once the connection is there. -/
def CnnDOG (c : Cat) : Cat := { c with nCnnAnOK := true }

/-- What is left of a buffer after `l` was written to its start. -/
def overwrite (buf l : List Byte) : List Byte := l ++ buf.drop l.length

/-- `sprintf` writes the text and its NUL. -/
def HandShake (c : Cat) : Cat :=
  if c.nCnnAnOK ∧ c.Status = .CLIENT_UNSHAKE then
    { c with
      VMSendBuf := overwrite c.VMSendBuf (HANDSHAKE_STREAM.chars ++ [0])
      iCurSendLen := HANDSHAKE_STREAM.chars.length
      pushed := c.pushed ++ [HANDSHAKE_STREAM.chars] }
  else c

/-- What `strncpy(buf, s, n)` writes: the text cut to `n` bytes, and NULs up to `n`. -/
def strncpyBytes (n : Nat) (s : CStr) : List Byte :=
  s.chars.take n ++ List.replicate (n - s.chars.length) 0

/-- The bytes a call asks to send; `len` may be shorter than the text. -/
def request (pSendData : CStr) (len : Nat) : List Byte :=
  if len = 0 then pSendData.chars else pSendData.chars.take len

def PushSendStream (pSendData : CStr) (len : Nat) (c : Cat) : Cat :=
  let l := if len = 0 then pSendData.chars.length else len
  { c with
    VMSendBuf := overwrite c.VMSendBuf (strncpyBytes MSGINITSIZE pSendData)
    iCurSendLen := l
    pushed := c.pushed ++ [request pSendData len] }

def SetClientStatus (Status : CLIENTSTATUS) (c : Cat) : Cat := { c with Status := Status }

/-- The bytes of `VMSendBuf` that are to be sent. -/
def pending (c : Cat) : List Byte := (c.VMSendBuf.drop c.pSndData).take c.iCurSendLen

/-- A call of `send` that takes `sn` bytes; reading behind the end of the buffer is undefined. -/
def send (sn : Nat) (c : Cat) : Option Cat :=
  if c.pSndData + c.iCurSendLen ≤ c.VMSendBuf.length then
    some { c with
      iCurSendLen := c.iCurSendLen - sn
      pSndData := if 0 < c.iCurSendLen - sn then c.pSndData + sn else c.pSndData
      sent := c.sent ++ c.pending.take sn }
  else none

end Cat

/-- The operations of the client's threads. -/
inductive CatAction where
  | connect
  | handShake
  | push (pSendData : CStr) (len : Nat)
  | status (Status : CLIENTSTATUS)
  | send (sn : Nat)

def catStep (c : Cat) : CatAction → Option Cat
  | .connect => some c.CnnDOG
  | .handShake => some c.HandShake
  | .push pSendData len => some (c.PushSendStream pSendData len)
  | .status Status => some (c.SetClientStatus Status)
  | .send sn => if 0 < sn ∧ sn ≤ c.iCurSendLen then c.send sn else none

/-- Texts are shorter than the buffer, and the length that is passed is not beyond the text. -/
def ShortTexts (_ : Cat) : CatAction → Prop
  | .push pSendData len => pSendData.chars.length < MSGINITSIZE ∧ len ≤ pSendData.chars.length
  | _ => True

/-- A text may be put into the buffer: nothing is pending and no message went out in pieces so far,
or the text is empty. -/
def Cat.Writable (c : Cat) (text : List Byte) : Prop :=
  c.iCurSendLen = 0 ∧ (c.pSndData = 0 ∨ text = [])

/-- The guard: texts are put into the buffer only when it is writable. -/
def InTurn (c : Cat) (a : CatAction) : Prop :=
  ShortTexts c a ∧
    match a with
    | .push pSendData _ => c.Writable pSendData.chars
    | .handShake => c.nCnnAnOK ∧ c.Status = .CLIENT_UNSHAKE → c.Writable HANDSHAKE_STREAM.chars
    | _ => True

/-! ## What is pending -/

variable {c c' : Cat}

/-- The buffer keeps its size, what is pending lies in it, and it is what was pushed and not yet
sent. -/
structure Faithful (c : Cat) : Prop where
  size : c.VMSendBuf.length = MSGINITSIZE
  inside : c.pSndData + c.iCurSendLen ≤ MSGINITSIZE
  pending : c.sent ++ c.pending = c.pushed.flatten

theorem length_overwrite {buf l : List Byte} (h : l.length ≤ buf.length) :
    (Cat.overwrite buf l).length = buf.length := by
  rw [Cat.overwrite, List.length_append, List.length_drop]
  omega

theorem length_strncpyBytes (n : Nat) (s : CStr) : (Cat.strncpyBytes n s).length = n := by
  rw [Cat.strncpyBytes, List.length_append, List.length_take, List.length_replicate]
  omega

/-- The start of a buffer that was written to. -/
theorem take_overwrite {buf l : List Byte} {n : Nat} (h : n ≤ l.length) :
    (Cat.overwrite buf l).take n = l.take n := by
  rw [Cat.overwrite, List.take_append_of_le_length h]

theorem take_strncpyBytes {n m : Nat} {s : CStr} (hm : m ≤ s.chars.length) (hn : m ≤ n) :
    (Cat.strncpyBytes n s).take m = s.chars.take m := by
  rw [Cat.strncpyBytes, List.take_append_of_le_length, List.take_take, Nat.min_eq_left hn]
  rw [List.length_take]
  omega

/-- The stored length is the length of the request. -/
theorem length_request {s : CStr} {len : Nat} (h : len ≤ s.chars.length) :
    (Cat.request s len).length = if len = 0 then s.chars.length else len := by
  rw [Cat.request]
  split
  · rfl
  · rw [List.length_take, Nat.min_eq_left h]

theorem request_eq_take {s : CStr} {len : Nat} (h : len ≤ s.chars.length) :
    Cat.request s len = s.chars.take (Cat.request s len).length := by
  rw [length_request h, Cat.request]
  split
  · rw [List.take_length]
  · rfl

/-- A request that is put into the writable buffer is what is pending then. -/
theorem Faithful.write (h : Faithful c) (buf req : List Byte) {text : List Byte} (hw : c.Writable text)
    (hsize : buf.length = MSGINITSIZE) (hreq : buf.take req.length = req)
    (hfits : req.length ≤ MSGINITSIZE) (hempty : text = [] → req = []) :
    Faithful { c with
      VMSendBuf := buf, iCurSendLen := req.length, pushed := c.pushed ++ [req] } := by
  obtain ⟨hlen, hptr⟩ := hw
  have hnone : c.pending = [] := by rw [Cat.pending, hlen, List.take_zero]
  have hsent : c.sent = c.pushed.flatten := by
    rw [← h.pending, hnone, List.append_nil]
  refine ⟨hsize, ?_, ?_⟩
  · have hinside := h.inside
    rcases hptr with h0 | hnil
    · show c.pSndData + req.length ≤ MSGINITSIZE
      omega
    · show c.pSndData + req.length ≤ MSGINITSIZE
      rw [hempty hnil, List.length_nil]
      omega
  · rw [List.flatten_append, List.flatten_singleton, ← hsent]
    congr 1
    show (buf.drop c.pSndData).take req.length = req
    rcases hptr with h0 | hnil
    · rw [h0, List.drop_zero, hreq]
    · rw [hempty hnil, List.length_nil, List.take_zero]

theorem length_HANDSHAKE_STREAM : HANDSHAKE_STREAM.chars.length = 129 := by decide +kernel

/-- What is sent leaves the rest pending. -/
theorem Faithful.send (h : Faithful c) {sn : Nat} (hsn : sn ≤ c.iCurSendLen) :
    ∃ c', c.send sn = some c' ∧ Faithful c' := by
  have hinside : c.pSndData + c.iCurSendLen ≤ c.VMSendBuf.length := by
    rw [h.size]
    exact h.inside
  refine ⟨_, if_pos hinside, h.size, ?_, ?_⟩
  · have hin := h.inside
    dsimp only
    split
    · omega
    · omega
  · rw [← h.pending, List.append_assoc]
    congr 1
    simp only [Cat.pending]
    split
    · next hleft =>
        rw [← List.drop_drop, ← List.drop_take, List.take_append_drop]
    · next hdone =>
        have hall : sn = c.iCurSendLen := by omega
        rw [hall, Nat.sub_self, List.take_zero, List.append_nil, List.take_take, Nat.min_self]

/-- One operation. -/
theorem Faithful.step (h : Faithful c) {a : CatAction} (ha : InTurn c a)
    (hstep : catStep c a = some c') : Faithful c' := by
  obtain ⟨hshort, hturn⟩ := ha
  cases a with
  | connect =>
      cases hstep
      exact ⟨h.size, h.inside, h.pending⟩
  | status Status =>
      cases hstep
      exact ⟨h.size, h.inside, h.pending⟩
  | handShake =>
      cases hstep
      unfold Cat.HandShake
      split
      · next hshake =>
          -- the handshake is shorter than the buffer
          have hlength : (HANDSHAKE_STREAM.chars ++ [0]).length ≤ MSGINITSIZE := by
            rw [List.length_append, length_HANDSHAKE_STREAM]
            decide
          refine h.write _ _ (hturn hshake) ?_ ?_ ?_ id
          · rw [length_overwrite (by rw [h.size]; exact hlength), h.size]
          · rw [take_overwrite (by simp), List.take_append_of_le_length (Nat.le_refl _),
              List.take_length]
          · rw [length_HANDSHAKE_STREAM]
            decide
      · exact h
  | push s len =>
      cases hstep
      obtain ⟨hfits, hlen⟩ := hshort
      have hle : (Cat.request s len).length ≤ s.chars.length := by
        rw [request_eq_take hlen, List.length_take]
        exact Nat.min_le_right _ _
      have hwrite := h.write (Cat.overwrite c.VMSendBuf (Cat.strncpyBytes MSGINITSIZE s))
        (Cat.request s len) hturn ?_ ?_ (by omega) ?_
      · rw [Cat.PushSendStream, ← length_request hlen]
        exact hwrite
      · rw [length_overwrite (by rw [length_strncpyBytes, h.size]), h.size]
      · rw [take_overwrite (by rw [length_strncpyBytes]; omega),
          take_strncpyBytes hle (by omega), ← request_eq_take hlen]
      · intro hnil
        rw [hnil, List.length_nil] at hle
        exact List.length_eq_zero_iff.mp (Nat.le_zero.mp hle)
  | send sn =>
      simp only [catStep] at hstep
      split at hstep
      · next hsn =>
          obtain ⟨c₁, hsend, hfaithful⟩ := h.send hsn.2
          rw [hsend] at hstep
          cases hstep
          exact hfaithful
      · cases hstep

theorem faithful_InitCat : Faithful InitCat where
  size := List.length_replicate
  inside := Nat.zero_le _
  pending := rfl

/-- **The client sends what it was asked to send**: what was written to the socket is the beginning
of the pushed texts in their order, the rest of them is pending in the buffer, and `send` can take
any part of it. -/
theorem sends_what_was_pushed (hrun : Reach catStep InTurn InitCat c) :
    c.sent <+: c.pushed.flatten ∧ c.sent ++ c.pending = c.pushed.flatten ∧
      ∀ sn, 0 < sn → sn ≤ c.iCurSendLen → ∃ c', catStep c (.send sn) = some c' ∧
        c'.sent = c.sent ++ c.pending.take sn := by
  have h : Faithful c := hrun.invariant faithful_InitCat fun _ _ _ hc ha hs => hc.step ha hs
  refine ⟨⟨c.pending, h.pending⟩, h.pending, fun sn hpos hsn => ?_⟩
  have hinside : c.pSndData + c.iCurSendLen ≤ c.VMSendBuf.length := by
    rw [h.size]
    exact h.inside
  exact ⟨_, (if_pos ⟨hpos, hsn⟩).trans (if_pos hinside), rfl⟩

/-- A request of two bytes, and one of them sent. -/
theorem sends_what_was_pushed_part : ∃ c₁ c, catStep InitCat (.push (CStr.lit "ab") 0) = some c₁ ∧
    catStep c₁ (.send 1) = some c ∧ c.sent <+: c.pushed.flatten ∧
      c.sent ++ c.pending = c.pushed.flatten := by
  have hshort : ShortTexts InitCat (.push (CStr.lit "ab") 0) :=
    ⟨by decide +kernel, Nat.zero_le _⟩
  have h₁ : Reach catStep InTurn InitCat (InitCat.PushSendStream (CStr.lit "ab") 0) :=
    Reach.start.next ⟨hshort, rfl, Or.inl rfl⟩ rfl
  have hlen : 1 ≤ (InitCat.PushSendStream (CStr.lit "ab") 0).iCurSendLen := by decide +kernel
  obtain ⟨-, -, hsend⟩ := sends_what_was_pushed h₁
  obtain ⟨c, hstep, -⟩ := hsend 1 (by decide) hlen
  obtain ⟨hsent, hpending, -⟩ := sends_what_was_pushed
    (h₁.next (a := .send 1) ⟨trivial, trivial⟩ hstep)
  exact ⟨_, c, rfl, hstep, hsent, hpending⟩

/-- **A request is not sent**: "ab" goes out in two pieces, and of "cd" the second byte and the one
behind it in the buffer. -/
theorem sends_wrong_bytes : ∃ c, Reach catStep ShortTexts InitCat c ∧
    c.pushed = [[97, 98], [99, 100]] ∧ c.sent = [97, 98, 100, 0] ∧
      ¬c.sent <+: c.pushed.flatten := by
  have hexec : (execAll catStep [.push (CStr.lit "ab") 0, .send 1, .send 1,
      .push (CStr.lit "cd") 0, .send 2] InitCat).map (fun c => (c.pushed, c.sent)) =
        some ([[97, 98], [99, 100]], [97, 98, 100, 0]) := by decide +kernel
  obtain ⟨c, hrun, hresult⟩ := Option.map_eq_some_iff.mp hexec
  obtain ⟨hpushed, hsent⟩ := Prod.mk.inj hresult
  refine ⟨c, reach_of_execAll_of ?_ hrun, hpushed, hsent, ?_⟩
  · simp only [List.forall_mem_cons]
    exact ⟨fun _ => ⟨by decide +kernel, Nat.zero_le _⟩, fun _ => trivial, fun _ => trivial,
      fun _ => ⟨by decide +kernel, Nat.zero_le _⟩, fun _ => trivial, nofun⟩
  · rw [hpushed, hsent]
    decide

end CuteCat

end Netflow
