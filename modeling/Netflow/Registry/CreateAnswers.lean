import Netflow.Registry.Broadcast

set_option autoImplicit false

/-! # The answer to a create request

`SetCapFilter` answers `OK` as soon as the filter is set. Only then `StartDogNose` looks at the link
type, lists the dog and creates its thread, and when one of these fails it returns without a word. A
capture that cannot be opened is not answered at all.
-/

namespace Netflow

open Iksemel

/-- The answers from outside are new ones: no open handle, no used address, no running thread. -/
structure Outcome.Fresh (o : Outcome) (s : Server) : Prop where
  handle : ∀ net h, o.pcap_open_live net = some h → h ∉ s.opened
  dog : s.dogs o.malloc = none
  thread : ∀ tid, o.pthread_create = some tid → tid ∉ s.threads.map Capture.tid

section Cases

variable {s s' : Server} {i : Slot} {o : Outcome}

end Cases

/-! ## The request -/

section Request

variable {ι : Type} [Iksemel ι] {s : Server} {i : Slot} {o : Outcome} {x : Option ι} {F N : CStr}
  {m : Nat}

end Request

/-! ## An answer that is not true -/

/-- With two clients connected and nothing captured, the first answers are new ones. -/
theorem OnlyTwo.fresh {s : Server} (h : OnlyTwo s) (o : Outcome) : o.Fresh s where
  handle net k _ := by
    rw [h.opened]
    exact List.not_mem_nil
  dog := by rw [h.dogs]
  thread tid _ := by
    rw [h.threads]
    exact List.not_mem_nil

end Netflow
