import Netflow.Fifo.Workers

set_option autoImplicit false

/-! # Calls of one kind that do not overlap

`RingsInv` is kept by every step as long as no call of `IoGetSendMsgCell` begins inside another one
and no call of `IoPutSendMsgCell` inside another one; calls of different kinds and the receive thread
may interleave in any way. Nothing is promised beyond that: two overlapping calls of
`IoGetSendMsgCell` return one cell (`overlapping_gets`).
-/

namespace Netflow

variable {T : Type} {s s' : Rings T} {t : T} {c : MsgCell} {w : Nat}

namespace RingsInv

/-! ## Room -/

/-- The cells are all there, and none is twice. -/
theorem length_own (hinv : RingsInv s) : s.pFifoDogMsgFree.count + s.held.length +
    (s.pFifoDogMsg.count + s.drained.length) = DOG2CATIOMSGNUM - 1 := by
  have hlength := hinv.own.length_eq
  simp only [List.length_append, List.length_map, List.length_finRange,
    FifoRing.length_contents] at hlength
  omega

/-- A worker that holds a cell finds room for it. -/
theorem putRoom (hinv : RingsInv s) (hmem : (t, c) ∈ s.held) :
    s.pFifoDogMsg.count + 1 < s.pFifoDogMsg.length := by
  have hown := hinv.length_own
  have hlength := hinv.length
  have hpos := List.length_pos_of_mem hmem
  omega

/-- So does the receive thread when it gives a cell back. -/
theorem backRoom (hinv : RingsInv s) (hmem : c ∈ s.drained) :
    s.pFifoDogMsgFree.count + 1 < s.pFifoDogMsgFree.length := by
  have hown := hinv.length_own
  have hlength := hinv.lengthFree
  have hpos := List.length_pos_of_mem hmem
  omega

theorem held_perm [DecidableEq T] (hmem : (t, c) ∈ s.held) :
    (s.held.map Prod.snd).Perm (c :: (s.held.erase (t, c)).map Prod.snd) :=
  (List.perm_cons_erase hmem).map Prod.snd

section Work

variable [DecidableEq T]

/-! ## A call of `IoGetSendMsgCell` -/

/-- The comparison finds a cell. -/
theorem get (hinv : RingsInv s) (hidle : s.worker t = .idle) (halone : ∀ t', ¬InGet (s.worker t'))
    (hne : s.pFifoDogMsgFree.r_cursor ≠ s.pFifoDogMsgFree.w_cursor) :
    RingsInv (s.setWorker t .popFound) := by
  refine { hinv with
    oneGet := hinv.oneGet.update (fun _ => Or.inr halone)
    onePut := hinv.onePut.update (fun hput => absurd hput id)
    getAt := forall_set (Q := fun _ => PopAt s.pFifoDogMsgFree) hinv.getAt (popFound_of_ne hne)
    putAt := forall_set (Q := fun _ => PushAt s.pFifoDogMsg) hinv.putAt trivial
    putOf := forall_set (Q := PutOf (s.setWorker t .popFound))
      (fun t' => (hinv.putOf t').imp (fun _ h => h) rfl rfl) trivial
    order := fun hno => hinv.order (none_of_update hno ?_) }
  rw [hidle]
  exact id

/-- The entry is read. -/
theorem readFree (hinv : RingsInv s) (hpc : s.worker t = .popFound) :
    RingsInv (s.setWorker t (.popRead (s.pFifoDogMsgFree.data s.pFifoDogMsgFree.r_cursor))) := by
  have hfound : s.pFifoDogMsgFree.contents ≠ [] := by
    have hat := hinv.getAt t
    rw [hpc] at hat
    exact hat
  have hin : InGet (s.worker t) := by
    rw [hpc]
    trivial
  refine { hinv with
    oneGet := hinv.oneGet.update (fun _ => Or.inl hin)
    onePut := hinv.onePut.update (fun hput => absurd hput id)
    getAt := forall_set (Q := fun _ => PopAt s.pFifoDogMsgFree) hinv.getAt (head_contents hfound)
    putAt := forall_set (Q := fun _ => PushAt s.pFifoDogMsg) hinv.putAt trivial
    putOf := forall_set (Q := PutOf (s.setWorker t _))
      (fun t' => (hinv.putOf t').imp (fun _ h => h) rfl rfl) trivial
    order := fun hno => hinv.order (none_of_update hno ?_) }
  rw [hpc]
  exact id

/-- The read cursor is stored and the cell returned. -/
theorem advanceFree (hinv : RingsInv s) (hpc : s.worker t = .popRead c) :
    RingsInv { s.setWorker t .idle with
      pFifoDogMsgFree := s.pFifoDogMsgFree.advanceRead
      held := (t, c) :: s.held
      hist := s.hist ++ [.got t c] } := by
  have hin : InGet (s.worker t) := by
    rw [hpc]
    trivial
  have hhead : s.pFifoDogMsgFree.contents.head? = some c := by
    have hat := hinv.getAt t
    rw [hpc] at hat
    exact hat
  have hcontents := advanceRead_of_head hhead
  have hfound : s.pFifoDogMsgFree.contents ≠ [] := by
    rw [hcontents]
    exact List.cons_ne_nil _ _
  -- the cell is out of the ring afterwards, for it is in it once
  have hnodup : s.pFifoDogMsgFree.contents.Nodup :=
    (List.nodup_append.mp (hinv.own.nodup_iff.mpr (List.nodup_finRange _))).1
  have hout : ∀ c', outAfter c' (s.hist ++ [.got t c]) = true ↔
      c' ∉ s.pFifoDogMsgFree.advanceRead.contents := by
    intro c'
    have hold := hinv.out c'
    -- of the cells only `c` changes its side
    rw [hcontents, List.nodup_cons] at hnodup
    rw [hcontents, List.mem_cons, not_or] at hold
    rw [outAfter_got]
    by_cases hcc : c = c'
    · rw [if_pos hcc, ← hcc]
      exact ⟨fun _ => hnodup.1, fun _ => rfl⟩
    · rw [if_neg hcc, hold]
      exact ⟨fun h => h.2, fun h => ⟨fun heq => hcc heq.symm, h⟩⟩
  have hput : putCells (s.hist ++ [.got t c]) = putCells s.hist := by
    rw [putCells_append]
    exact List.append_nil _
  have hpopped : poppedCells (s.hist ++ [.got t c]) = poppedCells s.hist := by
    rw [poppedCells_append]
    exact List.append_nil _
  refine {
    length := hinv.length
    lengthFree := hinv.lengthFree
    own := ?_
    oneGet := hinv.oneGet.update (fun hget => absurd hget id)
    onePut := hinv.onePut.update (fun hput => absurd hput id)
    getAt := hinv.oneGet.forall_set (Q := fun _ => PopAt s.pFifoDogMsgFree.advanceRead) hin
      (fun _ _ hno => popAt_of_not hno) trivial
    putAt := forall_set (Q := fun _ => PushAt s.pFifoDogMsg) hinv.putAt trivial
    putOf := forall_set (Q := PutOf _)
      (fun t' => (hinv.putOf t').imp (fun _ h => List.mem_cons_of_mem _ h) hput
        (congrArg (· ++ _) hpopped)) trivial
    drainAt := hinv.drainAt
    backAt := hinv.backAt.advanceRead hfound
    backOf := hinv.backOf.imp (fun _ h => h)
    order := fun hno => ?_
    out := hout
    given := hinv.given.append (fun t' c' heq => ?_) }
  · have hown := hinv.own
    rw [hcontents] at hown
    exact List.perm_middle.trans hown
  · show putCells (s.hist ++ [.got t c]) = poppedCells (s.hist ++ [.got t c]) ++ _
    rw [hput, hpopped]
    refine hinv.order (none_of_update hno ?_)
    rw [hpc]
    exact id
  · cases heq
    have hold := hinv.out c
    rw [hcontents] at hold
    exact Bool.eq_false_iff.mpr (fun h => hold.mp h List.mem_cons_self)

/-! ## A call of `IoPutSendMsgCell` -/

/-- The next write cursor is computed and compared; there is room. -/
theorem put (hinv : RingsInv s) (hmem : (t, c) ∈ s.held)
    (halone : ∀ t', ¬InPut (s.worker t')) :
    RingsInv ({ s with hist := s.hist ++ [RingEvent.put t c] }.setWorker t
      (.pushRoom c s.pFifoDogMsg.nextWrite)) := by
  have hput : putCells (s.hist ++ [.put t c]) = putCells s.hist ++ [c] := putCells_append
  have hpopped : poppedCells (s.hist ++ [.put t c]) = poppedCells s.hist := by
    rw [poppedCells_append]
    exact List.append_nil _
  -- `order` holds of the calls before it, for no worker is putting
  have hqueue : putCells (s.hist ++ [.put t c]) =
      poppedCells (s.hist ++ [.put t c]) ++ s.pFifoDogMsg.contents ++ [c] := by
    rw [hput, hpopped, hinv.order halone]
  refine { hinv with
    oneGet := hinv.oneGet.update (fun hget => absurd hget id)
    onePut := hinv.onePut.update (fun _ => Or.inr halone)
    getAt := forall_set (Q := fun _ => PopAt s.pFifoDogMsgFree) hinv.getAt trivial
    putAt := forall_set (Q := fun _ => PushAt s.pFifoDogMsg) hinv.putAt ⟨rfl, hinv.putRoom hmem⟩
    putOf := forall_set (Q := PutOf _) (fun t' => putOf_of_not (halone t')) ⟨hmem, hqueue⟩
    backOf := hinv.backOf.imp (fun _ h => h)
    order := fun hno => ?_
    out := fun c' => ?_
    given := hinv.given.append (fun t' c' heq => by cases heq) }
  · exfalso
    refine hno t ?_
    show InPut (Function.update s.worker t _ t)
    rw [Function.update_self]
    trivial
  · show outAfter c' (s.hist ++ [.put t c]) = true ↔ _
    rw [outAfter_put]
    exact hinv.out c'

/-- The entry is stored. -/
theorem storeMsg (hinv : RingsInv s) (hpc : s.worker t = .pushRoom c w) :
    RingsInv { s.setWorker t (.pushStored c w) with
      pFifoDogMsg := s.pFifoDogMsg.storeEntry c } := by
  have hin : InPut (s.worker t) := by
    rw [hpc]
    trivial
  have hat : PushAt s.pFifoDogMsg (.pushRoom c w) := by
    rw [← hpc]
    exact hinv.putAt t
  have hof : PutOf s t (.pushRoom c w) := by
    rw [← hpc]
    exact hinv.putOf t
  have hcontents : (s.pFifoDogMsg.storeEntry c).contents = s.pFifoDogMsg.contents :=
    contents_storeEntry hat.2
  -- the entry is written behind the contents, so no reader sees it yet
  refine { hinv with
    own := ?_
    oneGet := hinv.oneGet.update (fun hget => absurd hget id)
    onePut := hinv.onePut.update (fun _ => Or.inl hin)
    getAt := forall_set (Q := fun _ => PopAt s.pFifoDogMsgFree) hinv.getAt trivial
    putAt := hinv.onePut.forall_set (Q := fun _ => PushAt (s.pFifoDogMsg.storeEntry c)) hin
      (fun _ _ hno => pushAt_of_not hno) hat.storeEntry
    putOf := hinv.onePut.forall_set (Q := PutOf _) hin (fun _ _ hno => putOf_of_not hno)
      ⟨hof.1, ?_⟩
    drainAt := hinv.drainAt.of_contents hcontents
    backOf := hinv.backOf.imp (fun _ h => h)
    order := fun hno => ?_ }
  · show (_ ++ (_ ++ ((s.pFifoDogMsg.storeEntry c).contents ++ _))).Perm _
    rw [hcontents]
    exact hinv.own
  · show putCells s.hist = poppedCells s.hist ++ (s.pFifoDogMsg.storeEntry c).contents ++ [c]
    rw [hcontents]
    exact hof.2
  · exfalso
    refine hno t ?_
    show InPut (Function.update s.worker t _ t)
    rw [Function.update_self]
    trivial

/-- The write cursor is stored: the cell is the last one that waits. -/
theorem advanceMsg (hinv : RingsInv s) (hpc : s.worker t = .pushStored c w) :
    RingsInv { s.setWorker t .idle with
      pFifoDogMsg := s.pFifoDogMsg.advanceWrite w
      held := s.held.erase (t, c) } := by
  have hin : InPut (s.worker t) := by
    rw [hpc]
    trivial
  have hat : PushAt s.pFifoDogMsg (.pushStored c w) := by
    rw [← hpc]
    exact hinv.putAt t
  have hof : PutOf s t (.pushStored c w) := by
    rw [← hpc]
    exact hinv.putOf t
  -- the cell goes from the hand of its worker to the end of the contents
  have hcontents := contents_advanceWrite hat
  refine { hinv with
    own := ?_
    oneGet := hinv.oneGet.update (fun hget => absurd hget id)
    onePut := hinv.onePut.update (fun hput => absurd hput id)
    getAt := forall_set (Q := fun _ => PopAt s.pFifoDogMsgFree) hinv.getAt trivial
    putAt := hinv.onePut.forall_set (Q := fun _ => PushAt (s.pFifoDogMsg.advanceWrite w)) hin
      (fun _ _ hno => pushAt_of_not hno) trivial
    putOf := hinv.onePut.forall_set (Q := PutOf _) hin (fun _ _ hno => putOf_of_not hno) trivial
    drainAt := hinv.drainAt.append hcontents
    backOf := hinv.backOf.imp (fun _ h => h)
    order := fun _ => ?_ }
  · show (_ ++ ((s.held.erase (t, c)).map Prod.snd ++
      ((s.pFifoDogMsg.advanceWrite w).contents ++ s.drained))).Perm _
    refine List.Perm.trans (List.Perm.append_left _ ?_) hinv.own
    rw [hcontents, List.append_assoc, ← List.append_assoc]
    calc ((s.held.erase (t, c)).map Prod.snd ++ s.pFifoDogMsg.contents) ++ c :: s.drained
        |>.Perm (c :: ((s.held.erase (t, c)).map Prod.snd ++ s.pFifoDogMsg.contents ++ s.drained)) :=
          List.perm_middle
      _ |>.Perm (s.held.map Prod.snd ++ (s.pFifoDogMsg.contents ++ s.drained)) := by
          rw [List.append_assoc, ← List.cons_append]
          exact (held_perm hof.1).symm.append_right _
  · show putCells s.hist = poppedCells s.hist ++ (s.pFifoDogMsg.advanceWrite w).contents
    rw [hcontents, ← List.append_assoc]
    exact hof.2

end Work

/-! ## The receive thread pops a cell -/

/-- The comparison finds a cell. -/
theorem drain (hinv : RingsInv s) (hne : s.pFifoDogMsg.r_cursor ≠ s.pFifoDogMsg.w_cursor) :
    RingsInv { s with receiver := .popFound } :=
  { hinv with
    putOf := fun t => (hinv.putOf t).imp (fun _ h => h) rfl rfl
    drainAt := popFound_of_ne hne
    backAt := trivial
    backOf := trivial }

/-- The entry is read. -/
theorem readMsg (hinv : RingsInv s) (hpc : s.receiver = .popFound) :
    RingsInv { s with receiver := .popRead (s.pFifoDogMsg.data s.pFifoDogMsg.r_cursor) } := by
  have hfound : PopAt s.pFifoDogMsg .popFound := by
    rw [← hpc]
    exact hinv.drainAt
  exact { hinv with
    putOf := fun t => (hinv.putOf t).imp (fun _ h => h) rfl rfl
    drainAt := head_contents hfound
    backAt := trivial
    backOf := trivial }

/-- The read cursor is stored. -/
theorem popMsg (hinv : RingsInv s) (hpc : s.receiver = .popRead c) :
    RingsInv { s with
      receiver := .idle
      pFifoDogMsg := s.pFifoDogMsg.advanceRead
      drained := c :: s.drained
      hist := s.hist ++ [.popped c] } := by
  have hhead : PopAt s.pFifoDogMsg (.popRead c) := by
    rw [← hpc]
    exact hinv.drainAt
  have hcontents := advanceRead_of_head hhead
  have hfound : s.pFifoDogMsg.contents ≠ [] := by
    rw [hcontents]
    exact List.cons_ne_nil _ _
  have hput : putCells (s.hist ++ [.popped c]) = putCells s.hist := by
    rw [putCells_append]
    exact List.append_nil _
  -- the cell goes from the contents to those that were popped
  have hqueue : poppedCells (s.hist ++ [.popped c]) ++ s.pFifoDogMsg.advanceRead.contents =
      poppedCells s.hist ++ s.pFifoDogMsg.contents := by
    rw [poppedCells_append, hcontents, List.append_assoc]
    rfl
  refine { hinv with
    own := ?_
    putAt := fun t => (hinv.putAt t).advanceRead hfound
    putOf := fun t => (hinv.putOf t).imp (fun _ h => h) hput hqueue
    drainAt := trivial
    backAt := trivial
    backOf := trivial
    order := fun hno => ?_
    out := fun c' => ?_
    given := hinv.given.append (fun t' c' heq => by cases heq) }
  · show (_ ++ (_ ++ (s.pFifoDogMsg.advanceRead.contents ++ c :: s.drained))).Perm _
    have hown := hinv.own
    rw [hcontents] at hown
    have hmid : (s.pFifoDogMsg.advanceRead.contents ++ c :: s.drained).Perm
        (c :: (s.pFifoDogMsg.advanceRead.contents ++ s.drained)) := List.perm_middle
    exact ((hmid.append_left _).append_left _).trans hown
  · show putCells (s.hist ++ [.popped c]) = poppedCells (s.hist ++ [.popped c]) ++ _
    rw [hput, hqueue]
    exact hinv.order hno
  · show outAfter c' (s.hist ++ [.popped c]) = true ↔ _
    rw [outAfter_popped]
    exact hinv.out c'

/-! ## The receive thread gives a cell back -/

/-- The next write cursor is computed and compared; there is room. -/
theorem giveBack (hinv : RingsInv s) (hmem : c ∈ s.drained) :
    RingsInv { s with receiver := .pushRoom c s.pFifoDogMsgFree.nextWrite } :=
  { hinv with
    putOf := fun t => (hinv.putOf t).imp (fun _ h => h) rfl rfl
    drainAt := trivial
    backAt := ⟨rfl, hinv.backRoom hmem⟩
    backOf := hmem }

/-- The entry is stored. -/
theorem storeFree (hinv : RingsInv s) (hpc : s.receiver = .pushRoom c w) :
    RingsInv { s with
      receiver := .pushStored c w
      pFifoDogMsgFree := s.pFifoDogMsgFree.storeEntry c } := by
  have hat : PushAt s.pFifoDogMsgFree (.pushRoom c w) := by
    rw [← hpc]
    exact hinv.backAt
  have hof : BackOf s (.pushRoom c w) := by
    rw [← hpc]
    exact hinv.backOf
  have hcontents : (s.pFifoDogMsgFree.storeEntry c).contents = s.pFifoDogMsgFree.contents :=
    contents_storeEntry hat.2
  refine { hinv with
    own := ?_
    getAt := fun t => (hinv.getAt t).of_contents hcontents
    putOf := fun t => (hinv.putOf t).imp (fun _ h => h) rfl rfl
    drainAt := trivial
    backAt := hat.storeEntry
    backOf := hof
    out := fun c' => ?_ }
  · show ((s.pFifoDogMsgFree.storeEntry c).contents ++ _).Perm _
    rw [hcontents]
    exact hinv.own
  · show outAfter c' s.hist = true ↔ c' ∉ (s.pFifoDogMsgFree.storeEntry c).contents
    rw [hcontents]
    exact hinv.out c'

/-- The write cursor is stored: the cell may be given out again. -/
theorem advanceBack (hinv : RingsInv s) (hpc : s.receiver = .pushStored c w) :
    RingsInv { s with
      receiver := .idle
      pFifoDogMsgFree := s.pFifoDogMsgFree.advanceWrite w
      drained := s.drained.erase c
      hist := s.hist ++ [.back c] } := by
  have hat : PushAt s.pFifoDogMsgFree (.pushStored c w) := by
    rw [← hpc]
    exact hinv.backAt
  have hof : BackOf s (.pushStored c w) := by
    rw [← hpc]
    exact hinv.backOf
  -- the cell goes from the receive thread to the end of the free cells
  have hcontents := contents_advanceWrite hat
  have hput : putCells (s.hist ++ [.back c]) = putCells s.hist := by
    rw [putCells_append]
    exact List.append_nil _
  have hpopped : poppedCells (s.hist ++ [.back c]) = poppedCells s.hist := by
    rw [poppedCells_append]
    exact List.append_nil _
  refine { hinv with
    own := ?_
    getAt := fun t => (hinv.getAt t).append hcontents
    putOf := fun t => (hinv.putOf t).imp (fun _ h => h) hput (congrArg (· ++ _) hpopped)
    drainAt := trivial
    backAt := trivial
    backOf := trivial
    order := fun hno => ?_
    out := fun c' => ?_
    given := hinv.given.append (fun t' c' heq => by cases heq) }
  · show ((s.pFifoDogMsgFree.advanceWrite w).contents ++ (_ ++ (_ ++ s.drained.erase c))).Perm _
    rw [hcontents, List.append_assoc]
    refine List.Perm.trans (List.Perm.append_left _ ?_) hinv.own
    show (c :: (s.held.map Prod.snd ++ (s.pFifoDogMsg.contents ++ s.drained.erase c))).Perm _
    rw [← List.append_assoc, ← List.append_assoc]
    exact List.perm_middle.symm.trans ((List.perm_cons_erase hof).symm.append_left _)
  · show putCells (s.hist ++ [.back c]) = poppedCells (s.hist ++ [.back c]) ++ _
    rw [hput, hpopped]
    exact hinv.order hno
  · show outAfter c' (s.hist ++ [.back c]) = true ↔
      c' ∉ (s.pFifoDogMsgFree.advanceWrite w).contents
    rw [outAfter_back, hcontents, List.mem_append, List.mem_singleton]
    by_cases hcc : c = c'
    · rw [if_pos hcc]
      exact ⟨fun h => (by cases h), fun h => absurd (Or.inr hcc.symm) h⟩
    · rw [if_neg hcc, hinv.out c', not_or]
      exact ⟨fun h => ⟨h, fun heq => hcc heq.symm⟩, fun h => h.1⟩

end RingsInv

/-! ## Runs -/

/-- The rings of `InitServer`: every cell is in the free ring. -/
theorem ringsInv_ringsOf {free : FifoRing MsgCell} (hlength : free.length = DOG2CATIOMSGNUM)
    (hcontents : free.contents = List.finRange (DOG2CATIOMSGNUM - 1)) :
    RingsInv (ringsOf free : Rings T) where
  length := rfl
  lengthFree := hlength
  own := by
    show (free.contents ++ ([] ++ (newRing.contents ++ []))).Perm _
    rw [contents_newRing, hcontents]
    simp only [List.append_nil, List.Perm.refl]
  oneGet _ _ h := absurd h id
  onePut _ _ h := absurd h id
  getAt _ := trivial
  putAt _ := trivial
  putOf _ := trivial
  drainAt := trivial
  backAt := trivial
  backOf := trivial
  order _ := by
    show [] = [] ++ newRing.contents
    rw [contents_newRing, List.append_nil]
  out c := by
    show false = true ↔ c ∉ free.contents
    rw [hcontents]
    exact ⟨fun h => (by cases h), fun h => absurd (List.mem_finRange c) h⟩
  given _ _ _ _ h :=
    absurd h.symm (List.append_ne_nil_of_right_ne_nil _ (List.cons_ne_nil _ _))

theorem contents_fillFree (h : DOG2CATIOMSGNUM - 1 ≤ DOG2CATIOMSGNUM - 1) :
    (fillFree (DOG2CATIOMSGNUM - 1) h).1.contents = List.finRange (DOG2CATIOMSGNUM - 1) := by
  refine (List.map_injective_iff.mpr Fin.val_injective) ?_
  rw [(fillFree_spec _ h).2.1, List.map_coe_finRange_eq_range]

theorem ringsInv_ringsInit : RingsInv (ringsInit : Rings T) :=
  ringsInv_ringsOf (fillFree_spec _ _).1 (contents_fillFree _)

theorem contents_ringsInit :
    (ringsInit : Rings T).pFifoDogMsgFree.contents = List.finRange (DOG2CATIOMSGNUM - 1) := by
  have hof : ∀ free : FifoRing MsgCell, (ringsOf free : Rings T).pFifoDogMsgFree = free := fun _ => rfl
  rw [ringsInit, hof, contents_fillFree]

theorem free_ringsInit : (ringsInit : Rings T).pFifoDogMsgFree.contents ≠ [] := by
  rw [contents_ringsInit]
  exact List.ne_nil_of_mem (List.mem_finRange ⟨0, by decide⟩)

theorem worker_ringsInit (t : T) : (ringsInit : Rings T).worker t = .idle := rfl

section Runs

variable [DecidableEq T]

/-! The steps of a worker as equations. -/

theorem ringStep_get (hidle : s.worker t = .idle)
    (hne : s.pFifoDogMsgFree.r_cursor ≠ s.pFifoDogMsgFree.w_cursor) :
    ringStep s (.get t) = some (s.setWorker t .popFound) := by
  rw [ringStep, if_pos hidle, if_pos hne]

theorem ringStep_readFree (hpc : s.worker t = .popFound) : ringStep s (.work t) =
    some (s.setWorker t (.popRead (s.pFifoDogMsgFree.data s.pFifoDogMsgFree.r_cursor))) := by
  rw [ringStep, Rings.work, hpc]

theorem ringStep_advanceFree (hpc : s.worker t = .popRead c) : ringStep s (.work t) =
    some { s.setWorker t .idle with
      pFifoDogMsgFree := s.pFifoDogMsgFree.advanceRead
      held := (t, c) :: s.held
      hist := s.hist ++ [.got t c] } := by
  rw [ringStep, Rings.work, hpc]

theorem ringStep_put (hidle : s.worker t = .idle) (hmem : (t, c) ∈ s.held)
    (hne : s.pFifoDogMsg.nextWrite ≠ s.pFifoDogMsg.r_cursor) :
    ringStep s (.put t c) = some ({ s with hist := s.hist ++ [RingEvent.put t c] }.setWorker t
      (.pushRoom c s.pFifoDogMsg.nextWrite)) := by
  rw [ringStep, if_pos ⟨hidle, hmem⟩]
  exact if_pos hne

theorem ringStep_storeMsg (hpc : s.worker t = .pushRoom c w) : ringStep s (.work t) =
    some { s.setWorker t (.pushStored c w) with pFifoDogMsg := s.pFifoDogMsg.storeEntry c } := by
  rw [ringStep, Rings.work, hpc]

theorem ringStep_advanceMsg (hpc : s.worker t = .pushStored c w) : ringStep s (.work t) =
    some { s.setWorker t .idle with
      pFifoDogMsg := s.pFifoDogMsg.advanceWrite w
      held := s.held.erase (t, c) } := by
  rw [ringStep, Rings.work, hpc]

/-- **One step** of any thread keeps the invariant when the call that begins is alone. -/
theorem RingsInv.step {a : RingAction T} (hinv : RingsInv s) (halone : Alone s a)
    (h : ringStep s a = some s') : RingsInv s' := by
  cases a with
  | get t =>
      rw [ringStep] at h
      split at h
      · rename_i hidle
        split at h
        · rename_i hne
          cases h
          exact hinv.get hidle halone hne
        · cases h
          exact hinv
      · cases h
  | put t c =>
      rw [ringStep] at h
      split at h
      · rename_i hput
        -- a cell that is held is missing in the ring, so the push finds room
        have hne := s.pFifoDogMsg.push_room_iff.mpr (hinv.putRoom hput.2)
        dsimp only at h
        rw [if_pos (show s.pFifoDogMsg.nextWrite ≠ s.pFifoDogMsg.r_cursor from hne)] at h
        cases h
        exact hinv.put hput.2 halone
      · cases h
  | drain =>
      rw [ringStep] at h
      split at h
      · split at h
        · rename_i hne
          cases h
          exact hinv.drain hne
        · cases h
          exact hinv
      · cases h
  | giveBack c =>
      rw [ringStep] at h
      split at h
      · rename_i hback
        -- and so is one the receive thread has
        have hne := s.pFifoDogMsgFree.push_room_iff.mpr (hinv.backRoom hback.2)
        rw [if_pos (show s.pFifoDogMsgFree.nextWrite ≠ s.pFifoDogMsgFree.r_cursor from hne)] at h
        cases h
        exact hinv.giveBack hback.2
      · cases h
  | work t =>
      rw [ringStep, Rings.work] at h
      split at h
      · cases h
      · rename_i hpc
        cases h
        exact hinv.readFree hpc
      · rename_i hpc
        cases h
        exact hinv.advanceFree hpc
      · rename_i hpc
        cases h
        exact hinv.storeMsg hpc
      · rename_i hpc
        cases h
        exact hinv.advanceMsg hpc
  | receive =>
      rw [ringStep, Rings.receive] at h
      split at h
      · cases h
      · rename_i hpc
        cases h
        exact hinv.readMsg hpc
      · rename_i hpc
        cases h
        exact hinv.popMsg hpc
      · rename_i hpc
        cases h
        exact hinv.storeFree hpc
      · rename_i hpc
        cases h
        exact hinv.advanceBack hpc

theorem RingsInv.of_reach (hreach : Reach ringStep Alone ringsInit s) : RingsInv s :=
  hreach.invariant ringsInv_ringsInit (fun _ _ _ hinv halone h => hinv.step halone h)

omit [DecidableEq T] in
/-- What is popped is what was put, in order: nothing is lost and nothing is popped twice. -/
theorem RingsInv.popped_prefix (hinv : RingsInv s) : poppedCells s.hist <+: putCells s.hist := by
  by_cases hno : ∀ t, ¬InPut (s.worker t)
  · rw [hinv.order hno]
    exact List.prefix_append _ _
  · push Not at hno
    obtain ⟨t, hin⟩ := hno
    have hof := hinv.putOf t
    rcases hin.steps with ⟨c, w, hpc⟩ | ⟨c, w, hpc⟩
    · rw [hpc] at hof
      rw [hof.2, List.append_assoc]
      exact List.prefix_append _ _
    · rw [hpc] at hof
      rw [hof.2, List.append_assoc]
      exact List.prefix_append _ _

/-! ## Runs of whole calls -/

/-- A call of `IoGetSendMsgCell` that nobody interrupts. -/
theorem get_alone (t : T) (hidle : ∀ t', s.worker t' = .idle) (hne : s.pFifoDogMsgFree.contents ≠ []) :
    ∃ s' c, s.pFifoDogMsgFree.contents = c :: s'.pFifoDogMsgFree.contents ∧
      Reach ringStep Alone s s' ∧ (∀ t', s'.worker t' = .idle) ∧ (t, c) ∈ s'.held ∧
      s'.hist = s.hist ++ [.got t c] := by
  have hcursors : s.pFifoDogMsgFree.r_cursor ≠ s.pFifoDogMsgFree.w_cursor := by
    rw [Ne, FifoRing.cursors_eq_iff, ← FifoRing.length_contents, List.length_eq_zero_iff]
    exact hne
  have halone : Alone s (.get t) := fun t' hin => by
    rw [hidle t'] at hin
    exact hin
  have h1 := Reach.start.next halone (ringStep_get (hidle t) hcursors)
  have h2 := h1.next (show Alone _ (.work t) from trivial)
    (ringStep_readFree (Function.update_self ..))
  have h3 := h2.next (show Alone _ (.work t) from trivial)
    (ringStep_advanceFree (Function.update_self ..))
  refine ⟨_, _, advanceRead_contents hne, h3, ?_, List.mem_cons_self, rfl⟩
  intro t'
  show Function.update (Function.update (Function.update s.worker t _) t _) t .idle t' = .idle
  rw [Function.update_idem, Function.update_idem]
  exact forall_set (Q := fun _ pc => pc = .idle) hidle rfl t'

/-- A call of `IoPutSendMsgCell` that nobody interrupts. -/
theorem put_alone (hidle : ∀ t', s.worker t' = .idle) (hmem : (t, c) ∈ s.held)
    (hroom : s.pFifoDogMsg.count + 1 < s.pFifoDogMsg.length) :
    ∃ s', Reach ringStep Alone s s' ∧ (∀ t', s'.worker t' = .idle) ∧
      s'.pFifoDogMsgFree = s.pFifoDogMsgFree ∧ s'.hist = s.hist ++ [.put t c] := by
  have halone : Alone s (.put t c) := fun t' hin => by
    rw [hidle t'] at hin
    exact hin
  have h1 := Reach.start.next halone
    (ringStep_put (hidle t) hmem (s.pFifoDogMsg.push_room_iff.mpr hroom))
  have h2 := h1.next (show Alone _ (.work t) from trivial)
    (ringStep_storeMsg (Function.update_self ..))
  have h3 := h2.next (show Alone _ (.work t) from trivial)
    (ringStep_advanceMsg (Function.update_self ..))
  refine ⟨_, h3, ?_, rfl, rfl⟩
  intro t'
  show Function.update (Function.update (Function.update s.worker t _) t _) t .idle t' = .idle
  rw [Function.update_idem, Function.update_idem]
  exact forall_set (Q := fun _ pc => pc = .idle) hidle rfl t'

/-- Two calls of `IoGetSendMsgCell` that overlap return the same cell, in every state in which the
ring is not empty. -/
theorem overlapping_gets {a b : T} (hab : a ≠ b) (ha : s.worker a = .idle) (hb : s.worker b = .idle)
    (hne : s.pFifoDogMsgFree.contents ≠ []) : ∃ s' c, Reach ringStep AnyStep s s' ∧
      s'.hist = s.hist ++ [.got a c, .got b c] := by
  have hcursors : s.pFifoDogMsgFree.r_cursor ≠ s.pFifoDogMsgFree.w_cursor := by
    rw [Ne, FifoRing.cursors_eq_iff, ← FifoRing.length_contents, List.length_eq_zero_iff]
    exact hne
  have h1 := (Reach.start (C := AnyStep)).next trivial (ringStep_get ha hcursors)
  have h2 := h1.next trivial (ringStep_get (t := b)
    ((Function.update_of_ne hab.symm _ _).trans hb) hcursors)
  -- both have compared, and both read the same entry
  have h3 := h2.next trivial (ringStep_readFree (t := a)
    ((Function.update_of_ne hab _ _).trans (Function.update_self ..)))
  have h4 := h3.next trivial (ringStep_readFree (t := b)
    ((Function.update_of_ne hab.symm _ _).trans (Function.update_self ..)))
  have h5 := h4.next trivial (ringStep_advanceFree (t := a)
    ((Function.update_of_ne hab _ _).trans (Function.update_self ..)))
  have h6 := h5.next trivial (ringStep_advanceFree (t := b)
    ((Function.update_of_ne hab.symm _ _).trans (Function.update_self ..)))
  exact ⟨_, _, h6, List.append_assoc _ _ _⟩

/-! ## What was put gets popped -/

/-- The steps of calls that have begun, and the receive thread popping cells. -/
def Settles (_ : Rings T) : RingAction T → Prop
  | .work _ => True
  | .receive => True
  | .drain => True
  | _ => False

/-- The unfinished call of `IoPutSendMsgCell`, if there is one, is finished. -/
theorem RingsInv.finish_put (hinv : RingsInv s) : ∃ s', Reach ringStep Settles s s' ∧
    RingsInv s' ∧ s'.hist = s.hist ∧ ∀ t, ¬InPut (s'.worker t) := by
  -- the last step of a call
  have hlast : ∀ (s : Rings T) (t : T) (c : MsgCell) (w : Nat), RingsInv s →
      s.worker t = .pushStored c w → ∃ s', Reach ringStep Settles s s' ∧
        RingsInv s' ∧ s'.hist = s.hist ∧ ∀ t, ¬InPut (s'.worker t) := by
    intro s t c w hinv hpc
    refine ⟨_, .next .start (show Settles s (.work t) from trivial) (ringStep_advanceMsg hpc),
      hinv.advanceMsg hpc, rfl, ?_⟩
    have hin : InPut (s.worker t) := by
      rw [hpc]
      trivial
    exact hinv.onePut.forall_set (Q := fun _ pc => ¬InPut pc) hin (fun _ _ hno => hno) id
  by_cases hno : ∀ t, ¬InPut (s.worker t)
  · exact ⟨s, .start, hinv, rfl, hno⟩
  · push Not at hno
    obtain ⟨t, hin⟩ := hno
    rcases hin.steps with ⟨c, w, hpc⟩ | ⟨c, w, hpc⟩
    · obtain ⟨s', hreach, hinv', hhist, hno⟩ :=
        hlast _ t c w (hinv.storeMsg hpc) (Function.update_self ..)
      have hfirst : Reach ringStep Settles s _ :=
        .next .start (show Settles s (.work t) from trivial) (ringStep_storeMsg hpc)
      exact ⟨s', hfirst.trans hreach, hinv', hhist, hno⟩
    · exact hlast s t c w hinv hpc

/-- The call the receive thread is in is finished. -/
theorem RingsInv.finish_receive (hinv : RingsInv s) : ∃ s', Reach ringStep Settles s s' ∧
    RingsInv s' ∧ s'.worker = s.worker ∧ putCells s'.hist = putCells s.hist ∧
    s'.receiver = .idle := by
  have hgo : Settles s .receive := trivial
  have hput : ∀ e : RingEvent T, putCells [e] = [] → putCells (s.hist ++ [e]) = putCells s.hist := by
    intro e he
    rw [putCells_append, he, List.append_nil]
  cases hpc : s.receiver with
  | idle => exact ⟨s, .start, hinv, rfl, rfl, hpc⟩
  -- two steps finish a call that just began, one step finishes one that was half done
  | popFound =>
      have hread : ringStep s .receive = some { s with
          receiver := .popRead (s.pFifoDogMsg.data s.pFifoDogMsg.r_cursor) } := by
        rw [ringStep, Rings.receive, hpc]
      refine ⟨_, .next (.next .start hgo hread) (show Settles _ .receive from trivial) rfl,
        (hinv.readMsg hpc).popMsg rfl, rfl, hput _ rfl, rfl⟩
  | popRead c =>
      have hpop : ringStep s .receive = some { s with
          receiver := .idle
          pFifoDogMsg := s.pFifoDogMsg.advanceRead
          drained := c :: s.drained
          hist := s.hist ++ [.popped c] } := by
        rw [ringStep, Rings.receive, hpc]
      exact ⟨_, .next .start hgo hpop, hinv.popMsg hpc, rfl, hput _ rfl, rfl⟩
  | pushRoom c w =>
      have hstore : ringStep s .receive = some { s with
          receiver := .pushStored c w
          pFifoDogMsgFree := s.pFifoDogMsgFree.storeEntry c } := by
        rw [ringStep, Rings.receive, hpc]
      refine ⟨_, .next (.next .start hgo hstore) (show Settles _ .receive from trivial) rfl,
        (hinv.storeFree hpc).advanceBack rfl, rfl, hput _ rfl, rfl⟩
  | pushStored c w =>
      have hback : ringStep s .receive = some { s with
          receiver := .idle
          pFifoDogMsgFree := s.pFifoDogMsgFree.advanceWrite w
          drained := s.drained.erase c
          hist := s.hist ++ [.back c] } := by
        rw [ringStep, Rings.receive, hpc]
      exact ⟨_, .next .start hgo hback, hinv.advanceBack hpc, rfl, hput _ rfl, rfl⟩

/-- The receive thread empties the ring: an induction on the number of cells in it. -/
theorem RingsInv.drain_all {n : Nat} (hinv : RingsInv s) (hn : s.pFifoDogMsg.contents.length = n)
    (hidle : s.receiver = .idle) (hno : ∀ t, ¬InPut (s.worker t)) :
    ∃ s', Reach ringStep Settles s s' ∧ putCells s'.hist = putCells s.hist ∧
      poppedCells s'.hist = putCells s.hist := by
  induction n generalizing s with
  | zero =>
      refine ⟨s, .start, rfl, ?_⟩
      rw [hinv.order hno, List.length_eq_zero_iff.mp hn, List.append_nil]
  | succ n ih =>
      have hne : s.pFifoDogMsg.r_cursor ≠ s.pFifoDogMsg.w_cursor := by
        rw [Ne, s.pFifoDogMsg.cursors_eq_iff, ← FifoRing.length_contents]
        omega
      have hdrain : ringStep s .drain = some { s with receiver := .popFound } := by
        rw [ringStep, if_pos hidle, if_pos hne]
      have hpop := advanceRead_contents (popFound_of_ne hne)
      have hlength := congrArg List.length hpop
      rw [List.length_cons] at hlength
      -- the state once the call of the receive thread is finished
      have hfound := hinv.drain hne
      have hread := hfound.readMsg rfl
      have hpopped := hread.popMsg (c := s.pFifoDogMsg.data s.pFifoDogMsg.r_cursor) rfl
      obtain ⟨s', hreach, hput, hpops⟩ := ih hpopped (by
        show s.pFifoDogMsg.advanceRead.contents.length = n
        omega) rfl hno
      have hfirst : Reach ringStep Settles s _ :=
        .next (.next (.next .start (show Settles s .drain from trivial) hdrain)
          (show Settles _ .receive from trivial) rfl) (show Settles _ .receive from trivial) rfl
      have hsame : putCells (s.hist ++ [.popped (s.pFifoDogMsg.data s.pFifoDogMsg.r_cursor)]) =
          putCells s.hist := by
        rw [putCells_append]
        exact List.append_nil _
      exact ⟨s', hfirst.trans hreach, hput.trans hsame, hpops.trans hsame⟩

/-- **The message rings.** In every run in which no call of `IoGetSendMsgCell` begins inside another
one and no call of `IoPutSendMsgCell` inside another one, no cell is given out again before it was
given back, the cells popped are the first ones that were put, in the order of the puts and each
once for each put, and when the threads go on all of them get popped. -/
theorem messages_shared (hreach : Reach ringStep Alone (ringsInit : Rings T) s) :
    GivenOnce s.hist ∧ poppedCells s.hist <+: putCells s.hist ∧
      ∃ s', Reach ringStep Settles s s' ∧ putCells s'.hist = putCells s.hist ∧
        poppedCells s'.hist = putCells s.hist := by
  have hinv := RingsInv.of_reach hreach
  refine ⟨hinv.given, hinv.popped_prefix, ?_⟩
  obtain ⟨s₁, hreach₁, hinv₁, hhist, hno⟩ := hinv.finish_put
  obtain ⟨s₂, hreach₂, hinv₂, hworker, hput, hidle⟩ := hinv₁.finish_receive
  rw [← hworker] at hno
  obtain ⟨s₃, hreach₃, hput₃, hpops⟩ := hinv₂.drain_all rfl hidle hno
  rw [hput, hhist] at hput₃ hpops
  exact ⟨s₃, (hreach₁.trans hreach₂).trans hreach₃, hput₃, hpops⟩

/-- A call of `IoGetSendMsgCell` and one of `IoPutSendMsgCell` that nobody interrupts. -/
theorem get_put_alone (hreach : Reach ringStep Alone (ringsInit : Rings T) s) (t : T)
    (hidle : ∀ t', s.worker t' = .idle) (hne : s.pFifoDogMsgFree.contents ≠ []) :
    ∃ s' c, s.pFifoDogMsgFree.contents = c :: s'.pFifoDogMsgFree.contents ∧
      Reach ringStep Alone (ringsInit : Rings T) s' ∧ (∀ t', s'.worker t' = .idle) ∧
      s'.hist = s.hist ++ [.got t c] ++ [.put t c] := by
  obtain ⟨s₁, c, hcontents, hreach₁, hidle₁, hmem, hgot⟩ := get_alone t hidle hne
  have hroom := (RingsInv.of_reach (hreach.trans hreach₁)).putRoom hmem
  obtain ⟨s₂, hreach₂, hidle₂, hfree, hput⟩ := put_alone hidle₁ hmem hroom
  rw [← hfree] at hcontents
  exact ⟨s₂, c, hcontents, (hreach.trans hreach₁).trans hreach₂, hidle₂, by rw [hput, hgot]⟩

/-- Two workers are given a cell each and put it; the receive thread then pops the two cells. -/
theorem messages_shared_two : ∃ s s' : Rings Bool, ∃ c d, c ≠ d ∧
    s.hist = [.got false c, .put false c, .got true d, .put true d] ∧ GivenOnce s.hist ∧
    Reach ringStep Settles s s' ∧ poppedCells s'.hist = [c, d] := by
  obtain ⟨s₁, c, hc, hreach₁, hidle₁, hfirst⟩ :=
    get_put_alone .start false worker_ringsInit free_ringsInit
  have hlength := congrArg List.length hc
  rw [contents_ringsInit, List.length_finRange, List.length_cons] at hlength
  have hne : s₁.pFifoDogMsgFree.contents ≠ [] := by
    refine List.ne_nil_of_length_pos ?_
    have hmany : 2 ≤ DOG2CATIOMSGNUM - 1 := by decide
    omega
  obtain ⟨s, d, hd, hreach, -, hsecond⟩ := get_put_alone hreach₁ true hidle₁ hne
  have hnodup := List.nodup_finRange (DOG2CATIOMSGNUM - 1)
  rw [← contents_ringsInit (T := Bool), hc, hd] at hnodup
  obtain ⟨hgiven, -, s', hreach', -, hpops⟩ := messages_shared hreach
  have hhist : s.hist = [.got false c, .put false c, .got true d, .put true d] := by
    rw [hsecond, hfirst]
    rfl
  refine ⟨s, s', c, d, ?_, hhist, hgiven, hreach', ?_⟩
  · rintro rfl
    exact (List.nodup_cons.mp hnodup).1 List.mem_cons_self
  · rw [hpops, hhist]
    rfl

/-- Two workers are given the same cell, which was never put back. -/
theorem cell_given_twice :
    ∃ s : Rings Bool, Reach ringStep AnyStep ringsInit s ∧ ¬GivenOnce s.hist := by
  obtain ⟨s, c, hreach, hhist⟩ := overlapping_gets (a := false) (b := true) Bool.false_ne_true
    (worker_ringsInit _) (worker_ringsInit _) free_ringsInit
  refine ⟨s, hreach, fun hgiven => ?_⟩
  have hout := hgiven [.got false c] true c [] hhist
  rw [show [RingEvent.got false c] = [] ++ [.got false c] from rfl, outAfter_got, if_pos rfl] at hout
  cases hout

end Runs

end Netflow
