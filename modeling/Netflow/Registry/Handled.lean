import Netflow.Registry.Dangling
import Netflow.Registry.Repeated
import Netflow.Registry.StrCalls

set_option autoImplicit false

/-! # What the IO thread gets through

While no pointer dangles and the lists of hookers are circles, one thing stops the IO thread: a stanza
that makes it pass a NULL to a string function. Every other stanza is handled, from any client, and
every client can be closed.
-/

namespace Netflow

namespace Server

variable {s : Server} {i : Slot}

/-! ## The store of `STATUS_IOCLOSEED` -/

theorem Closable.ioClosed (h : s.Closable i) : (s.ioClosed i).Closable i where
  dogs := h.dogs
  lists := h.lists
  nodes := h.nodes
  listed d hd := by
    rw [Server.ioClosed, setClient_ClientInfo_self] at hd
    exact h.listed d hd

theorem HandleOpen.ioClosed (h : s.HandleOpen i) : (s.ioClosed i).HandleOpen i := by
  intro d dog k hd hdog hk
  rw [Server.ioClosed, setClient_ClientInfo_self] at hd
  exact h d dog k hd hdog hk

/-- A client that can be closed is closed. -/
theorem Closable.shutdown (h : s.Closable i) (hopen : s.HandleOpen i) (o : Outcome) :
    ∃ s', s.shutdown i o = some s' := by
  obtain ⟨⟨r, s'⟩, hreleases⟩ := Option.isSome_iff_exists.mp (h.ioClosed.returns hopen.ioClosed o)
  exact ⟨s', FreeObj_of_releases hreleases⟩

end Server

section Run

variable {ι : Type} [Iksemel ι] {align : MsgCell → Nat} {s : Server}

end Run

end Netflow
