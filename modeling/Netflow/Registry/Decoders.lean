import Netflow.Registry.Shared

set_option autoImplicit false

/-! # The decoder of a capture

`StartDogNose` stores the decoder for its filter in the global `FunCallBack`, and the thread it starts
reads the global when it gets to run. The two assignments, the opening of the capture,
`pthread_create` and the first step of a started thread are steps of their own here, and a thread
that was started may take its first step between any two of them.

The second assignment does not stand in an `else`: it replaces the decoder for udp in the same call.
So a loop gets that decoder only when its thread runs between the two assignments, whatever the filter
of its own dog is.
-/

namespace Netflow

/-- The arguments of a call of `StartDogNose`, and what is answered from outside while it runs. -/
structure NoseCall where
  FilterStr : CStr
  Name : Option CStr
  pClientInfo : Slot
  model : Nat
  outcome : Outcome

/-- Where the IO thread stands in `StartDogNose`: before the `if`, before the second assignment, behind
it, and before `pthread_create`. -/
inductive NosePc where
  | idle
  | called (c : NoseCall)
  | chosen (c : NoseCall)
  | assigned (c : NoseCall)
  | listed (c : NoseCall) (d : DogPtr)

/-- A thread that was created for a dog and did not run yet. -/
structure StartedThread where
  tid : ThreadId
  dog : DogPtr
deriving DecidableEq

/-- A call of `pcap_loop`: the dog it captures for and the decoder it was given. -/
structure CaptureLoop where
  dog : DogPtr
  decoder : CallBack
deriving DecidableEq

/-- The server, the call the IO thread is in, the threads that did not run yet and the loops. -/
structure Nosing where
  srv : Server
  pc : NosePc
  waiting : List StartedThread
  loops : List CaptureLoop

/-- A call, the next step of the call, or the first step of a thread. -/
inductive NoseAction where
  | call (c : NoseCall)
  | resume
  | firstStep (t : StartedThread)

/-- The decoder for a filter. -/
def decoderOf (Filter : CStr) : CallBack :=
  if Filter.contains (CStr.lit "udp") then .udp_ethernet_protocol_packet_callback
  else .tcp_ethernet_protocol_packet_callback

namespace Server

/-- The assignment in the `if`. -/
def assignUdp (FilterStr : CStr) (s : Server) : Server :=
  if FilterStr.contains (CStr.lit "udp") then
    { s with FunCallBack := .udp_ethernet_protocol_packet_callback }
  else s

/-- The assignment behind it. -/
def assignTcp (s : Server) : Server :=
  { s with FunCallBack := .tcp_ethernet_protocol_packet_callback }

/-- `StartDogNose` from the assignments to `pthread_create`: the new dog, or what is returned. -/
def openDog (c : NoseCall) (s : Server) : Option ((Int ⊕ DogPtr) × Server) := do
  let s ← s.openLive (c.outcome.pcap_open_live (netInterface c.model))
  match s.SetCapFilter s.pcap_handle c.pClientInfo c.outcome with
  | (false, s) => some (.inl 0, s)
  | (true, s) =>
      if c.outcome.pcap_datalink ≠ DLT_EN10MB then some (.inl 0, s)
      else
        match ← s.AddCuteDog2List s.pcap_handle .tidp c.Name c.FilterStr c.pClientInfo
            c.outcome.malloc with
        | (none, s) => some (.inl (-1), s)
        | (some pCuteDog, s) => some (.inr pCuteDog, s)

/-- The loop `StartDogNoseThread` enters: none when the dog has no handle. -/
def loopOf (d : DogPtr) (s : Server) : List CaptureLoop :=
  match (s.dogs d).bind CUTEDOG.Handle with
  | none => []
  | some _ => [{ dog := d, decoder := s.FunCallBack }]

end Server

/-- `pthread_create` that succeeds: the thread waits. -/
def Nosing.create (tid : ThreadId) (d : DogPtr) (n : Nosing) : Option Nosing :=
  if tid ∈ n.srv.threads.map Capture.tid ∨ tid ∈ n.waiting.map StartedThread.tid then none
  else some { n with
    srv := { n.srv with tidp := tid }
    pc := .idle
    waiting := { tid := tid, dog := d } :: n.waiting }

def noseStep (n : Nosing) : NoseAction → Option Nosing
  | .call c =>
      match n.pc with
      | .idle => some { n with pc := .called c }
      | _ => none
  | .resume =>
      match n.pc with
      | .idle => none
      | .called c => some { n with srv := n.srv.assignUdp c.FilterStr, pc := .chosen c }
      | .chosen c => some { n with srv := n.srv.assignTcp, pc := .assigned c }
      | .assigned c =>
          match n.srv.openDog c with
          | none => none
          | some (.inl _, s) => some { n with srv := s, pc := .idle }
          | some (.inr d, s) => some { n with srv := s, pc := .listed c d }
      | .listed c d =>
          match c.outcome.pthread_create with
          | none => some { n with pc := .idle }
          | some tid => n.create tid d
  | .firstStep t =>
      if t ∈ n.waiting then do
        let s ← n.srv.StartDogNoseThread t.tid t.dog
        some { n with
          srv := s
          waiting := n.waiting.erase t
          loops := n.srv.loopOf t.dog ++ n.loops }
      else none

/-- No call and no thread. -/
def Nosing.start (s : Server) : Nosing where
  srv := s
  pc := .idle
  waiting := []
  loops := []

/-- Every loop runs with the decoder for the filter of its dog. -/
def OwnDecoders (n : Nosing) : Prop :=
  ∀ l ∈ n.loops, ∀ dog, n.srv.dogs l.dog = some dog → l.decoder = decoderOf dog.Filter

/-- The IO thread stands between the two assignments, and the first one was made. -/
def BetweenAssignments (n : Nosing) : Prop :=
  match n.pc with
  | .chosen c => c.FilterStr.contains (CStr.lit "udp") = true
  | _ => False

/-- A thread takes its first step between the assignments of some call for udp exactly when the
filter of its own dog asks for udp. -/
def RunsInTime (n : Nosing) : NoseAction → Prop
  | .firstStep t => ∀ dog, n.srv.dogs t.dog = some dog →
      (dog.Filter.contains (CStr.lit "udp") = true ↔ BetweenAssignments n)
  | _ => True

/-- No filter that is asked for names udp. -/
def NoUdpAsked : Nosing → NoseAction → Prop
  | _, .call c => c.FilterStr.contains (CStr.lit "udp") = false
  | _, _ => True

/-! ## The stages of `StartDogNose` -/

namespace Server

variable {s s' : Server}

theorem setCallBack_eq (F : CStr) (s : Server) : s.setCallBack F = (s.assignUdp F).assignTcp := rfl

/-- `StartDogNose` is its stages, one after the other. -/
theorem StartDogNose_eq (c : NoseCall) (s : Server) :
    s.StartDogNose c.FilterStr c.Name c.pClientInfo c.model c.outcome =
      match (s.assignUdp c.FilterStr).assignTcp.openDog c with
      | none => none
      | some (.inl ret, s) => some (ret, s)
      | some (.inr d, s) =>
          match c.outcome.pthread_create with
          | none => some (0, s)
          | some tid => (s.createThread tid d).bind fun s => some (1, s) := by
  rw [← setCallBack_eq]
  simp only [StartDogNose, openDog, Option.bind_eq_bind]
  cases (s.setCallBack c.FilterStr).openLive (c.outcome.pcap_open_live (netInterface c.model)) with
  | none => rfl
  | some s₁ =>
      simp only [Option.bind_some]
      cases s₁.SetCapFilter s₁.pcap_handle c.pClientInfo c.outcome with
      | mk b s₂ =>
          cases b with
          | false => rfl
          | true =>
              dsimp only
              -- a link type other than Ethernet returns 0
              split
              · rfl
              · cases s₂.AddCuteDog2List s₂.pcap_handle .tidp c.Name c.FilterStr c.pClientInfo
                  c.outcome.malloc with
                | none => rfl
                | some r =>
                    obtain ⟨d, s₃⟩ := r
                    cases d with
                    | none => rfl
                    | some d =>
                        cases c.outcome.pthread_create with
                        | none => rfl
                        | some tid => rfl

/-- The dogs of a server stay, when a new one is listed at most. -/
def KeepsDogs (s s' : Server) : Prop := ∀ e dog, s.dogs e = some dog → s'.dogs e = some dog

/-- What `openDog` does to the dogs: it returns a number other than 1 and lists none, or it lists one
with a handle. -/
def OpensDog (c : NoseCall) (s' : Server) : Int ⊕ DogPtr → Prop
  | .inl ret => ret ≠ 1
  | .inr d => d = c.outcome.malloc ∧
      ∃ k n, s'.dogs d = some (newDog k .tidp n c.FilterStr c.pClientInfo)

/-- **Inversion of `openDog`.** -/
theorem openDog_eq_some {c : NoseCall} {r : Int ⊕ DogPtr} (h : s.openDog c = some (r, s')) :
    s'.FunCallBack = s.FunCallBack ∧ KeepsDogs s s' ∧ OpensDog c s' r := by
  simp only [openDog, Option.bind_eq_bind, Option.bind_eq_some_iff] at h
  obtain ⟨s₁, hopen, h⟩ := h
  have hs₁ : s₁.FunCallBack = s.FunCallBack ∧ s₁.dogs = s.dogs := by
    obtain ⟨-, rfl⟩ | ⟨k, -, -, rfl⟩ := openLive_eq_some hopen
    · exact ⟨rfl, rfl⟩
    · exact ⟨rfl, rfl⟩
  have htalks := talks_SetCapFilter s₁.pcap_handle c.pClientInfo c.outcome s₁
  have hhandle := pcap_handle_SetCapFilter s₁ s₁.pcap_handle c.pClientInfo c.outcome
  have hfun := htalks.FunCallBack.trans hs₁.1
  have hdogs := htalks.dogs.trans hs₁.2
  -- neither the handle nor the answer about the filter touches the dogs
  have hkeep : KeepsDogs s (s₁.SetCapFilter s₁.pcap_handle c.pClientInfo c.outcome).2 := by
    intro e dog he
    rwa [hdogs]
  split at h
  · next s₂ heq =>
      cases h
      rw [heq] at hfun hkeep
      exact ⟨hfun, hkeep, Int.zero_ne_one⟩
  · next s₂ heq =>
      rw [heq] at hfun hkeep hdogs hhandle
      split at h
      · cases h
        exact ⟨hfun, hkeep, Int.zero_ne_one⟩
      · simp only [Option.bind_eq_some_iff] at h
        obtain ⟨⟨r', s₃⟩, hadd, h⟩ := h
        cases hp : s₂.pcap_handle with
        | none =>
            rw [hp] at hadd
            cases hadd
            cases h
            exact ⟨hfun, hkeep, show (-1 : Int) ≠ 1 by decide⟩
        | some k =>
            rw [hp] at hadd
            obtain ⟨n, -, hnew, rfl, rfl⟩ := AddCuteDog2List_eq_some hadd
            cases h
            refine ⟨hfun, fun e dog he => ?_, rfl, k, n, Function.update_self ..⟩
            -- `malloc` returned an address at which no dog is
            have hed : e ≠ c.outcome.malloc := by
              rintro rfl
              rw [hdogs, he] at hnew
              cases hnew
            show Function.update s₂.dogs _ _ e = some dog
            rw [Function.update_of_ne hed]
            exact hkeep e dog he

end Server

/-! ## What a step changes -/

/-- The ways a step is made. -/
inductive NoseStepped (n : Nosing) : NoseAction → Nosing → Prop where
  | called (c : NoseCall) : n.pc = .idle → NoseStepped n (.call c) { n with pc := .called c }
  | udp {c : NoseCall} : n.pc = .called c →
      NoseStepped n .resume { n with srv := n.srv.assignUdp c.FilterStr, pc := .chosen c }
  | tcp {c : NoseCall} : n.pc = .chosen c →
      NoseStepped n .resume { n with srv := n.srv.assignTcp, pc := .assigned c }
  | returned {c : NoseCall} {ret : Int} {s : Server} : n.pc = .assigned c →
      n.srv.openDog c = some (.inl ret, s) → NoseStepped n .resume { n with srv := s, pc := .idle }
  | opened {c : NoseCall} {d : DogPtr} {s : Server} : n.pc = .assigned c →
      n.srv.openDog c = some (.inr d, s) →
      NoseStepped n .resume { n with srv := s, pc := .listed c d }
  | noThread {c : NoseCall} {d : DogPtr} : n.pc = .listed c d →
      NoseStepped n .resume { n with pc := .idle }
  | created {c : NoseCall} {d : DogPtr} (tid : ThreadId) : n.pc = .listed c d →
      NoseStepped n .resume { n with
        srv := { n.srv with tidp := tid }
        pc := .idle
        waiting := { tid := tid, dog := d } :: n.waiting }
  | stepped {t : StartedThread} (threads : List Capture) : t ∈ n.waiting →
      NoseStepped n (.firstStep t) { n with
        srv := { n.srv with threads := threads }
        waiting := n.waiting.erase t
        loops := n.srv.loopOf t.dog ++ n.loops }

/-- **Inversion of a step.** -/
theorem noseStep_eq_some {n n' : Nosing} {a : NoseAction} (h : noseStep n a = some n') :
    NoseStepped n a n' := by
  cases a with
  | call c =>
      cases hpc : n.pc with
      | idle =>
          simp only [noseStep, hpc] at h
          cases h
          exact .called c hpc
      | _ => simp [noseStep, hpc] at h
  | resume =>
      cases hpc : n.pc with
      | idle => simp [noseStep, hpc] at h
      | called c =>
          simp only [noseStep, hpc] at h
          cases h
          exact .udp hpc
      | chosen c =>
          simp only [noseStep, hpc] at h
          cases h
          exact .tcp hpc
      | assigned c =>
          simp only [noseStep, hpc] at h
          split at h
          · cases h
          · next hopen =>
              cases h
              exact .returned hpc hopen
          · next hopen =>
              cases h
              exact .opened hpc hopen
      | listed c d =>
          simp only [noseStep, hpc] at h
          split at h
          · cases h
            exact .noThread hpc
          · rw [Nosing.create] at h
            split at h
            · cases h
            · cases h
              exact .created _ hpc
  | firstStep t =>
      simp only [noseStep] at h
      split at h
      · next hmem =>
          simp only [Option.bind_eq_bind, Option.bind_eq_some_iff] at h
          obtain ⟨s, hthread, h⟩ := h
          cases h
          -- a dog without a handle makes no capture, and the thread is gone all the same
          simp only [Server.StartDogNoseThread, Option.bind_eq_bind,
            Option.bind_eq_some_iff] at hthread
          obtain ⟨dog, -, hthread⟩ := hthread
          split at hthread
          · cases hthread
            exact .stepped n.srv.threads hmem
          · cases hthread
            exact .stepped _ hmem
      · cases h

/-- The decoder `FunCallBack` points to, while a thread may read it. -/
def Nosing.decoder (n : Nosing) : CallBack :=
  match n.pc with
  | .chosen c => decoderOf c.FilterStr
  | _ => .tcp_ethernet_protocol_packet_callback

/-- The second assignment of the call was made. -/
def NosePc.Assigned : NosePc → Prop
  | .assigned _ => True
  | .listed _ _ => True
  | _ => False

/-- The dog was listed with its handle. -/
def HasHandle (s : Server) (d : DogPtr) : Prop := ∃ dog h, s.dogs d = some dog ∧ dog.Handle = some h

/-- **The invariant.** Every thread has a dog with a handle, and once a thread waits or will be
created, `FunCallBack` is what the place of the IO thread says. -/
structure Nosing.Inv (n : Nosing) : Prop where
  waiting : ∀ t ∈ n.waiting, HasHandle n.srv t.dog
  listed : ∀ c d, n.pc = .listed c d → HasHandle n.srv d
  loops : ∀ l ∈ n.loops, HasHandle n.srv l.dog
  decoder : n.waiting ≠ [] ∨ n.pc.Assigned → n.srv.FunCallBack = n.decoder

section Steps

variable {n n' : Nosing} {a : NoseAction}

theorem HasHandle.keep {s s' : Server} {d : DogPtr} (h : HasHandle s d) (hk : s.KeepsDogs s') :
    HasHandle s' d := by
  obtain ⟨dog, k, hdog, hhandle⟩ := h
  exact ⟨dog, k, hk d dog hdog, hhandle⟩

theorem mem_loopOf {s : Server} {d : DogPtr} {l : CaptureLoop} (h : HasHandle s d) :
    l ∈ s.loopOf d ↔ l = { dog := d, decoder := s.FunCallBack } := by
  obtain ⟨dog, k, hdog, hhandle⟩ := h
  simp only [Server.loopOf, hdog, Option.bind_some, hhandle, List.mem_singleton]

theorem dogs_assignUdp (F : CStr) (s : Server) : (s.assignUdp F).dogs = s.dogs := by
  unfold Server.assignUdp
  split
  · rfl
  · rfl

theorem FunCallBack_assignUdp {F : CStr} {s : Server}
    (h : s.FunCallBack = .tcp_ethernet_protocol_packet_callback) :
    (s.assignUdp F).FunCallBack = decoderOf F := by
  unfold Server.assignUdp decoderOf
  split
  · rfl
  · exact h

theorem inv_start (s : Server) : (Nosing.start s).Inv where
  waiting t ht := absurd ht List.not_mem_nil
  listed c d h := by cases h
  loops l hl := absurd hl List.not_mem_nil
  decoder h := by
    rcases h with h | h
    · exact absurd rfl h
    · cases h

/-- A step keeps the invariant and the dogs. -/
theorem inv_step (hn : n.Inv) (h : noseStep n a = some n') :
    n'.Inv ∧ n.srv.KeepsDogs n'.srv := by
  have hself : n.srv.KeepsDogs n.srv := fun _ _ he => he
  cases noseStep_eq_some h with
  | called c hpc =>
      refine ⟨⟨hn.waiting, nofun, hn.loops, fun hd => ?_⟩, hself⟩
      rcases hd with hd | hd
      · have hdec := hn.decoder (Or.inl hd)
        rwa [Nosing.decoder, hpc] at hdec
      · cases hd
  | @udp c hpc =>
      have hkeep : n.srv.KeepsDogs (n.srv.assignUdp c.FilterStr) := by
        intro e dog he
        rwa [dogs_assignUdp]
      refine ⟨⟨fun t ht => (hn.waiting t ht).keep hkeep, nofun,
        fun l hl => (hn.loops l hl).keep hkeep, fun hd => ?_⟩, hkeep⟩
      rcases hd with hd | hd
      · -- a thread that waits reads what the first assignment leaves
        have hdec := hn.decoder (Or.inl hd)
        rw [Nosing.decoder, hpc] at hdec
        exact FunCallBack_assignUdp hdec
      · cases hd
  -- the second assignment sets the pointer whatever it was
  | tcp hpc => exact ⟨⟨hn.waiting, nofun, hn.loops, fun _ => rfl⟩, hself⟩
  | @returned c ret s hpc hopen =>
      obtain ⟨hfun, hkeep, -⟩ := Server.openDog_eq_some hopen
      have hdec := hn.decoder (Or.inr (by rw [hpc]; trivial))
      rw [Nosing.decoder, hpc, ← hfun] at hdec
      exact ⟨⟨fun t ht => (hn.waiting t ht).keep hkeep, nofun,
        fun l hl => (hn.loops l hl).keep hkeep, fun _ => hdec⟩, hkeep⟩
  | @opened c d s hpc hopen =>
      obtain ⟨hfun, hkeep, -, k, N, hdog⟩ := Server.openDog_eq_some hopen
      have hdec := hn.decoder (Or.inr (by rw [hpc]; trivial))
      rw [Nosing.decoder, hpc, ← hfun] at hdec
      refine ⟨⟨fun t ht => (hn.waiting t ht).keep hkeep, fun c' e hl => ?_,
        fun l hl => (hn.loops l hl).keep hkeep, fun _ => hdec⟩, hkeep⟩
      cases hl
      exact ⟨_, k, hdog, rfl⟩
  | noThread hpc =>
      have hdec := hn.decoder (Or.inr (by rw [hpc]; trivial))
      rw [Nosing.decoder, hpc] at hdec
      exact ⟨⟨hn.waiting, nofun, hn.loops, fun _ => hdec⟩, hself⟩
  | @created c d tid hpc =>
      have hdec := hn.decoder (Or.inr (by rw [hpc]; trivial))
      rw [Nosing.decoder, hpc] at hdec
      refine ⟨⟨fun t ht => ?_, nofun, hn.loops, fun _ => hdec⟩, hself⟩
      rcases List.mem_cons.mp ht with rfl | ht
      · exact hn.listed c d hpc
      · exact hn.waiting t ht
  | @stepped t threads hmem =>
      refine ⟨⟨fun t' ht' => hn.waiting t' (List.mem_of_mem_erase ht'), hn.listed, fun l hl => ?_,
        fun hd => ?_⟩, hself⟩
      · rcases List.mem_append.mp hl with hl | hl
        · rw [(mem_loopOf (hn.waiting t hmem)).mp hl]
          exact hn.waiting t hmem
        · exact hn.loops l hl
      · exact hn.decoder (Or.inl (List.ne_nil_of_mem hmem))

/-- The decoder a thread reads is that for a filter exactly when the filter asks for udp between the
two assignments, and only there. -/
theorem decoder_eq_iff (n : Nosing) (F : CStr) : n.decoder = decoderOf F ↔
    (F.contains (CStr.lit "udp") = true ↔ BetweenAssignments n) := by
  unfold Nosing.decoder BetweenAssignments
  split
  · next c hpc =>
      unfold decoderOf
      cases c.FilterStr.contains (CStr.lit "udp") <;> cases F.contains (CStr.lit "udp") <;> simp
  · -- elsewhere the pointer is the decoder for tcp
    unfold decoderOf
    cases F.contains (CStr.lit "udp") <;> simp

/-- The loops stay as they are in a step in which no thread runs. -/
theorem ownDecoders_keep (hn : n.Inv) (hloops : n'.loops = n.loops)
    (hkeep : n.srv.KeepsDogs n'.srv) : OwnDecoders n' ↔ OwnDecoders n := by
  rw [OwnDecoders, hloops]
  constructor
  · intro h l hl dog hdog
    exact h l hl dog (hkeep _ _ hdog)
  · intro h l hl dog hdog
    obtain ⟨dog', k, hdog', -⟩ := hn.loops l hl
    have hsame := hkeep _ _ hdog'
    rw [hdog] at hsame
    cases hsame
    exact h l hl dog hdog'

/-- **A step keeps the loops right** exactly when a thread that takes its first step does so in
time. -/
theorem ownDecoders_step (hn : n.Inv) (h : noseStep n a = some n') :
    OwnDecoders n' ↔ OwnDecoders n ∧ RunsInTime n a := by
  have hkeep := (inv_step hn h).2
  cases noseStep_eq_some h with
  | @stepped t threads hmem =>
      obtain ⟨dog, k, hdog, hhandle⟩ := hn.waiting t hmem
      have hloop := fun l => mem_loopOf (l := l) (hn.waiting t hmem)
      have hdec := hn.decoder (Or.inl (List.ne_nil_of_mem hmem))
      -- by the invariant the guard says which decoder the new loop gets
      have hguard : RunsInTime n (.firstStep t) ↔ n.srv.FunCallBack = decoderOf dog.Filter := by
        rw [hdec, decoder_eq_iff]
        constructor
        · exact fun hg => hg dog hdog
        · intro hg dog' hdog'
          rw [hdog] at hdog'
          cases hdog'
          exact hg
      rw [hguard]
      constructor
      · intro hown
        refine ⟨fun l hl dog' hdog' => hown l (List.mem_append_right _ hl) dog' hdog', ?_⟩
        exact hown _ (List.mem_append_left _ ((hloop _).mpr rfl)) dog hdog
      · rintro ⟨hown, hread⟩ l hl dog' hdog'
        rcases List.mem_append.mp hl with hl | hl
        · rw [(hloop l).mp hl] at hdog' ⊢
          have hsame : n.srv.dogs t.dog = some dog' := hdog'
          rw [hdog] at hsame
          cases hsame
          exact hread
        · exact hown l hl dog' hdog'
  -- no thread runs in the other steps
  | _ =>
      refine Iff.trans ?_ (and_iff_left trivial).symm
      exact ownDecoders_keep hn rfl hkeep

end Steps

theorem inv_reach {C : Nosing → NoseAction → Prop} {s : Server} {n : Nosing}
    (h : Reach noseStep C (Nosing.start s) n) : n.Inv :=
  h.invariant (inv_start s) fun _ _ _ hn _ hstep => (inv_step hn hstep).1

/-- In a run of calls of `StartDogNose` and first steps of threads, every capture loop runs with the
decoder for the filter of its dog exactly when every thread takes its first step in time: between the
assignments of a call for udp if the filter of its dog asks for udp, and elsewhere if not. -/
theorem own_decoders_iff {s : Server} {steps : List (Nosing × NoseAction × Nosing)} {n : Nosing}
    (h : Run noseStep AnyStep (Nosing.start s) steps n) :
    OwnDecoders n ↔ ∀ t ∈ steps, RunsInTime t.1 t.2.1 :=
  h.forall_iff (fun _ hl => absurd hl List.not_mem_nil)
    fun _ _ _ hreach _ hstep => ownDecoders_step (inv_reach hreach) hstep

/-! ## Filters without udp -/

/-- The dog is there and its filter does not ask for udp. -/
def NotForUdp (s : Server) (d : DogPtr) : Prop :=
  ∃ dog, s.dogs d = some dog ∧ dog.Filter.contains (CStr.lit "udp") = false

/-- The call the IO thread is in. -/
def NosePc.call : NosePc → Option NoseCall
  | .idle => none
  | .called c => some c
  | .chosen c => some c
  | .assigned c => some c
  | .listed c _ => some c

/-- No filter asked for udp so far. -/
structure Nosing.NoUdp (n : Nosing) : Prop where
  call : ∀ c, n.pc.call = some c → c.FilterStr.contains (CStr.lit "udp") = false
  listed : ∀ c d, n.pc = .listed c d → NotForUdp n.srv d
  waiting : ∀ t ∈ n.waiting, NotForUdp n.srv t.dog

theorem NotForUdp.keep {s s' : Server} {d : DogPtr} (h : NotForUdp s d) (hk : s.KeepsDogs s') :
    NotForUdp s' d := by
  obtain ⟨dog, hdog, hno⟩ := h
  exact ⟨dog, hk d dog hdog, hno⟩

theorem noUdp_step {n n' : Nosing} {a : NoseAction} (hn : n.NoUdp) (hi : n.Inv)
    (hguard : NoUdpAsked n a) (h : noseStep n a = some n') : n'.NoUdp := by
  have hkeep := (inv_step hi h).2
  have hwaiting : ∀ t ∈ n.waiting, NotForUdp n'.srv t.dog := fun t ht => (hn.waiting t ht).keep hkeep
  cases noseStep_eq_some h with
  | called c hpc =>
      refine ⟨fun c' hc => ?_, nofun, hwaiting⟩
      cases hc
      exact hguard
  | udp hpc => exact ⟨fun c' hc => hn.call c' (by rw [hpc]; exact hc), nofun, hwaiting⟩
  | tcp hpc => exact ⟨fun c' hc => hn.call c' (by rw [hpc]; exact hc), nofun, hwaiting⟩
  | returned hpc hopen => exact ⟨nofun, nofun, hwaiting⟩
  | @opened c d s hpc hopen =>
      obtain ⟨-, -, -, k, N, hdog⟩ := Server.openDog_eq_some hopen
      have hno : c.FilterStr.contains (CStr.lit "udp") = false := hn.call c (by rw [hpc]; rfl)
      refine ⟨fun c' hc => hn.call c' (by rw [hpc]; exact hc), fun c' e he => ?_, hwaiting⟩
      cases he
      -- the dog's filter is a copy of the string, cut at the size of its field
      refine ⟨_, hdog, Bool.eq_false_iff.mpr fun hcopy => ?_⟩
      rw [CStr.contains_of_strncpy hcopy] at hno
      cases hno
  | noThread hpc => exact ⟨nofun, nofun, hwaiting⟩
  | @created c d tid hpc =>
      refine ⟨nofun, nofun, fun t ht => ?_⟩
      rcases List.mem_cons.mp ht with rfl | ht
      · exact hn.listed c d hpc
      · exact hn.waiting t ht
  | stepped threads hmem =>
      exact ⟨hn.call, hn.listed, fun t ht => hn.waiting t (List.mem_of_mem_erase ht)⟩

/-- While no filter asks for udp, a thread takes its first step in time. -/
theorem Nosing.NoUdp.inTime {n : Nosing} (hn : n.NoUdp) {a : NoseAction} {n' : Nosing}
    (h : noseStep n a = some n') : RunsInTime n a := by
  cases noseStep_eq_some h with
  | @stepped t threads hmem =>
      intro dog hdog
      obtain ⟨dog', hdog', hno⟩ := hn.waiting t hmem
      rw [hdog] at hdog'
      cases hdog'
      rw [hno]
      refine iff_of_false Bool.false_ne_true ?_
      unfold BetweenAssignments
      split
      · -- between the assignments of a call that is not for udp
        next c hpc =>
          rw [hn.call c (by rw [hpc]; rfl)]
          exact Bool.false_ne_true
      · exact id
  | _ => trivial

/-- **Without udp the decoders are right**, in every run in which no filter that is asked for names
udp. -/
theorem own_decoders_without_udp {s : Server} {n : Nosing}
    (h : Reach noseStep NoUdpAsked (Nosing.start s) n) : OwnDecoders n := by
  have hstart : (Nosing.start s).NoUdp := ⟨nofun, nofun, fun t ht => absurd ht List.not_mem_nil⟩
  refine (h.invariant (P := fun n => (n.Inv ∧ n.NoUdp) ∧ OwnDecoders n)
    ⟨⟨inv_start s, hstart⟩, fun l hl => absurd hl List.not_mem_nil⟩ ?_).2
  rintro n a n' ⟨⟨hi, hn⟩, hown⟩ hguard hstep
  exact ⟨⟨(inv_step hi hstep).1, noUdp_step hn hi hguard hstep⟩,
    (ownDecoders_step hi hstep).mpr ⟨hown, hn.inTime hstep⟩⟩

/-! ## One call after the other -/

/-- The last two steps: the thread is created and runs. -/
theorem create_firstStep {n : Nosing} {c : NoseCall} {d : DogPtr} {dog : CUTEDOG}
    {h : PcapHandle} {tid : ThreadId} (hpc : n.pc = .listed c d) (hnone : n.waiting = [])
    (hthread : c.outcome.pthread_create = some tid) (hdog : n.srv.dogs d = some dog)
    (hhandle : dog.Handle = some h) (hfresh : tid ∉ n.srv.threads.map Capture.tid) :
    execAll noseStep [.resume, .firstStep { tid := tid, dog := d }] n =
      some { srv := n.srv.withThread { tid := tid, handle := h, dog := d, pClientInfo := dog.Master }
             pc := .idle
             waiting := []
             loops := { dog := d, decoder := n.srv.FunCallBack } :: n.loops } := by
  have hcreate : n.create tid d = some { n with
      srv := { n.srv with tidp := tid }
      pc := .idle
      waiting := [{ tid := tid, dog := d }] } := by
    rw [Nosing.create, hnone, if_neg]
    simp [hfresh]
  simp only [execAll, noseStep, hpc, hthread, hcreate, Option.bind_some, List.mem_singleton,
    if_true, Server.StartDogNoseThread, Server.loopOf, hdog, hhandle, Option.bind_eq_bind,
    List.erase_cons_head, List.singleton_append]
  rfl

/-- **A call whose thread runs right after it** is `StartDogNose`, and the loop gets the decoder for
tcp, whatever the filter is. -/
theorem staged_StartDogNose {c : NoseCall} {s s' : Server} {ret : Int} (loops : List CaptureLoop)
    (h : s.StartDogNose c.FilterStr c.Name c.pClientInfo c.model c.outcome = some (ret, s')) :
    ∃ as new, execAll noseStep as { Nosing.start s with loops := loops } =
        some { Nosing.start s' with loops := new ++ loops } ∧
      (∀ l ∈ new, l.decoder = .tcp_ethernet_protocol_packet_callback) ∧
      (ret = 1 → new = [{ dog := c.outcome.malloc,
                          decoder := .tcp_ethernet_protocol_packet_callback }]) := by
  rw [Server.StartDogNose_eq] at h
  cases hopen : (s.assignUdp c.FilterStr).assignTcp.openDog c with
  | none =>
      rw [hopen] at h
      cases h
  | some r =>
      obtain ⟨r, s₁⟩ := r
      obtain ⟨hfun, -, hnew⟩ := Server.openDog_eq_some hopen
      rw [hopen] at h
      cases r with
      | inl v =>
          cases h
          refine ⟨[.call c, .resume, .resume, .resume], [], ?_, fun l hl => ?_, fun hret => ?_⟩
          · simp only [execAll, noseStep, Nosing.start, Option.bind_some, hopen, List.nil_append]
          · cases hl
          · exact absurd hret hnew
      | inr d =>
          obtain ⟨rfl, k, n, hdog⟩ := hnew
          cases hthread : c.outcome.pthread_create with
          | none =>
              simp only [hthread] at h
              cases h
              refine ⟨[.call c, .resume, .resume, .resume, .resume], [], ?_, fun l hl => ?_,
                fun hret => ?_⟩
              · simp only [execAll, noseStep, Nosing.start, Option.bind_some, hopen, hthread,
                  List.nil_append]
              · cases hl
              · cases hret
          | some tid =>
              simp only [hthread, Option.bind_eq_some_iff] at h
              obtain ⟨s₂, hcreate, h⟩ := h
              cases h
              -- the thread runs at once: creating it and its first step are two steps here
              rw [Server.createThread_eq tid hdog rfl] at hcreate
              split at hcreate
              · cases hcreate
              · next hfresh =>
                  cases hcreate
                  have hlast := create_firstStep
                    (n := { srv := s₁, pc := .listed c c.outcome.malloc, waiting := [], loops := loops })
                    rfl rfl hthread hdog rfl hfresh
                  refine ⟨[.call c, .resume, .resume, .resume] ++
                    [.resume, .firstStep { tid := tid, dog := c.outcome.malloc }], _, ?_,
                    fun l hl => ?_, fun _ => rfl⟩
                  · -- `FunCallBack` is as the second assignment left it
                    rw [hfun] at hlast
                    simp only [List.cons_append, List.nil_append, execAll, noseStep, Nosing.start,
                      Option.bind_some, hopen] at hlast ⊢
                    exact hlast
                  · rw [List.mem_singleton.mp hl]

/-- A call from which the capture is opened and its thread created. -/
def udpCall : NoseCall where
  FilterStr := CStr.lit "udp"
  Name := some (CStr.lit "a")
  pClientInfo := 15
  model := 0
  outcome := .allSucceed

/-- The call starts its capture on the initial server. -/
theorem udpCall_starts : ∃ s, (InitServer fun _ => 0).StartDogNose udpCall.FilterStr udpCall.Name
      udpCall.pClientInfo udpCall.model udpCall.outcome = some (1, s) ∧
    s.dogs udpCall.outcome.malloc =
      some (newDog 0 .tidp (CStr.lit "a") (CStr.lit "udp") 15) := by
  have hcap : Outcome.allSucceed.captures 0 0 := ⟨rfl, rfl, rfl⟩
  have hcell : Registry.CellFree (InitServer fun _ => 0) :=
    cellFree_of_count (by rw [count_InitServer]; decide)
  have hstart := Server.StartDogNose_of_captures (F := CStr.lit "udp") (N := CStr.lit "a") (i := 15)
    hcap hcell (show (0 : PcapHandle) ∉ (InitServer fun _ => 0).opened from List.not_mem_nil) rfl
  have hthread : Outcome.allSucceed.pthread_create = some 1 := rfl
  rw [hthread] at hstart
  dsimp only at hstart
  rw [if_neg (show (1 : ThreadId) ∉ (InitServer fun _ => 0).threads.map Capture.tid from
    List.not_mem_nil)] at hstart
  have hlisted : ∀ (s : Server) (d : DogPtr) (dog : CUTEDOG) (i : Slot),
      (s.listDog d dog i).dogs d = some dog := fun s d dog i => Function.update_self ..
  exact ⟨_, hstart, hlisted ((InitServer fun _ => 0).withCapture (CStr.lit "udp") 0 15 .allSucceed)
    Outcome.allSucceed.malloc _ 15⟩

/-- The call and the first step of its thread. -/
theorem own_decoders_iff_udpCall : ∃ steps n, Run noseStep AnyStep
    (Nosing.start (InitServer fun _ => 0)) steps n ∧ n.loops ≠ [] ∧
      (OwnDecoders n ↔ ∀ t ∈ steps, RunsInTime t.1 t.2.1) := by
  obtain ⟨s, hstart, -⟩ := udpCall_starts
  obtain ⟨as, new, hexec, -, hnew⟩ := staged_StartDogNose [] hstart
  rw [hnew rfl] at hexec
  obtain ⟨steps, hrun⟩ := (reach_of_execAll hexec).run
  exact ⟨steps, _, hrun, List.cons_ne_nil _ _, own_decoders_iff hrun⟩

/-- **A capture for udp decodes tcp**: its dog's filter is `udp`. -/
theorem udp_capture_decodes_tcp : ¬∀ (s : Server) (n : Nosing),
    Reach noseStep AnyStep (Nosing.start s) n → OwnDecoders n := by
  intro hall
  obtain ⟨s, hstart, hdog⟩ := udpCall_starts
  obtain ⟨as, new, hexec, -, hnew⟩ := staged_StartDogNose [] hstart
  rw [hnew rfl] at hexec
  have hown := hall _ _ (reach_of_execAll hexec) _ List.mem_cons_self _ hdog
  revert hown
  decide +kernel

end Netflow
