import Netflow.Lib.Block
import Netflow.Registry.UserText

set_option autoImplicit false

/-! # The list of filters in its buffer

`GetAllCuteDogsFilterString` writes a row for each dog into the `size` bytes at `Filter`. It has a
pointer to write at and a position to go on from, but the position is never moved: each row is written
at the start again. What lies behind `Filter + size` is part of the block here, so that a write there
would show.
-/

namespace Netflow

open Server

/-- `snprintf(str, n, "%s", text)` for the `str` at the offset `p` of a block. -/
def snprintfAt (block : List Byte) (p n : Nat) (text : CStr) : Option (List Byte) :=
  if n = 0 then some block else store block p (text.chars.take (n - 1) ++ [0])

/-- The memory from `Filter` on, the offset of `head` in it, and `pos`. -/
structure FilterLoop where
  Filter : List Byte
  head : Nat
  pos : Nat

/-- One turn of the loop. -/
def FilterLoop.turn (size : Nat) (l : FilterLoop) (pCuteDog : CUTEDOG) : Option FilterLoop :=
  (snprintfAt l.Filter l.head (size - l.pos) (filterRow pCuteDog)).map fun Filter =>
    { Filter := Filter, head := l.head + l.pos, pos := l.pos }

/-- `GetAllCuteDogsFilterString` on the memory from `Filter` on. -/
def Server.GetAllCuteDogsFilterStringIn (Filter : List Byte) (size : Nat) (s : Server) :
    Option (List Byte) :=
  (s.CuteDogList.foldlM (fun l d => (s.dogs d).bind fun pCuteDog => l.turn size pCuteDog)
    { Filter := Filter, head := 0, pos := 0 }).map FilterLoop.Filter

/-- The row of a dog, uncut. -/
def fullRow (dog : CUTEDOG) : CStr :=
  CStr.lit "<name>" ++ dog.Name ++ CStr.lit "</name><filterstring>" ++ dog.Filter ++
    CStr.lit "</filterstring>"

/-- The rows of the dogs, one after the other. -/
def rowsOf (dogs : List CUTEDOG) : List Byte := dogs.flatMap fun dog => (fullRow dog).chars

theorem rowsOf_append (dogs dogs' : List CUTEDOG) :
    rowsOf (dogs ++ dogs') = rowsOf dogs ++ rowsOf dogs' := List.flatMap_append

theorem rowsOf_singleton (dog : CUTEDOG) : rowsOf [dog] = (fullRow dog).chars :=
  List.flatMap_singleton ..

/-- Every dog has a row. -/
theorem length_rowsOf (dogs : List CUTEDOG) : 6 * dogs.length ≤ (rowsOf dogs).length := by
  induction dogs with
  | nil => exact Nat.le_refl 0
  | cons dog rest ih =>
      have htag : (CStr.lit "<name>").chars.length = 6 := rfl
      have hsplit : rowsOf (dog :: rest) = (fullRow dog).chars ++ rowsOf rest := rfl
      have hrow : 6 ≤ (fullRow dog).chars.length := by
        simp only [fullRow, CStr.chars_append, List.length_append, htag]
        omega
      rw [hsplit, List.length_append, List.length_cons]
      omega

/-- Each row fits into `Row`, and all of them into the buffer. -/
def RowsFit (size : Nat) (dogs : List CUTEDOG) : Prop :=
  (∀ dog ∈ dogs, (fullRow dog).chars.length < 128) ∧ (rowsOf dogs).length < size

/-- The memory after the call: rows that fit are there in their order; what is behind the buffer stayed;
and there is a NUL in the buffer. -/
structure Serialised (size : Nat) (dogs : List CUTEDOG) (Filter Filter' : List Byte) : Prop where
  complete : RowsFit size dogs → (CStr.ofChars Filter').chars = rowsOf dogs
  inside : Filter'.length = Filter.length ∧ Filter'.drop size = Filter.drop size
  terminated : (0 : Byte) ∈ Filter'.take size

/-- A row that fits is written whole. -/
theorem RowsFit.last {size : Nat} {dogs : List CUTEDOG} {dog : CUTEDOG}
    (h : RowsFit size (dogs ++ [dog])) : CStr.snprintf size (filterRow dog) = fullRow dog := by
  obtain ⟨hrows, hall⟩ := h
  have hrow := hrows dog (List.mem_append_right _ List.mem_cons_self)
  have hcut : filterRow dog = fullRow dog := CStr.snprintf_of_fits hrow
  rw [hcut]
  refine CStr.snprintf_of_fits ?_
  rw [rowsOf_append, rowsOf_singleton, List.length_append] at hall
  omega

/-! ## One row -/

section Row

variable {block block' : List Byte} {n : Nat} {text : CStr}

/-- What is written is as long as the buffer at most. -/
theorem length_written (hn : 0 < n) : (text.chars.take (n - 1) ++ [0]).length ≤ n := by
  rw [List.length_append, List.length_take, List.length_singleton]
  omega

/-- **A row at the start of the buffer**: the text is there, cut to the buffer, and what is behind the
buffer stayed. -/
theorem snprintfAt_start (text : CStr) (hn : 0 < n) (hroom : n ≤ block.length) :
    ∃ block', snprintfAt block 0 n text = some block' ∧ block'.length = block.length ∧
      block'.drop n = block.drop n ∧ (0 : Byte) ∈ block'.take n ∧
      CStr.ofChars block' = CStr.snprintf n text := by
  have hlen : (text.chars.take (n - 1) ++ [0]).length ≤ n := length_written hn
  have hin : 0 + (text.chars.take (n - 1) ++ [0]).length ≤ block.length := by omega
  refine ⟨overlay block 0 (text.chars.take (n - 1) ++ [0]), ?_, length_overlay hin, ?_, ?_, ?_⟩
  · rw [snprintfAt, if_neg (Nat.ne_of_gt hn), store_eq_some hin]
  · -- the row and its NUL end inside the buffer
    rw [overlay, List.take_zero, List.nil_append, List.drop_append,
      List.drop_of_length_le hlen, List.nil_append, List.drop_drop, Nat.zero_add,
      Nat.add_sub_cancel' hlen]
  · rw [overlay, List.take_zero, List.nil_append, List.take_append,
      List.take_of_length_le hlen]
    exact List.mem_append_left _ (List.mem_append_right _ List.mem_cons_self)
  · rw [overlay, List.take_zero, List.nil_append, List.append_assoc, List.singleton_append]
    exact CStr.ofChars_nul (text.take (n - 1)) _

end Row

/-! ## The loop -/

section Loop

variable {s : Server} {dogs : List CUTEDOG} {size : Nat} {Filter : List Byte}

/-- Every turn writes at the start of the buffer. -/
theorem turn_start (dog : CUTEDOG) (hsize : 0 < size) (hroom : size ≤ Filter.length) :
    ∃ Filter', FilterLoop.turn size { Filter := Filter, head := 0, pos := 0 } dog =
        some { Filter := Filter', head := 0, pos := 0 } ∧
      Filter'.length = Filter.length ∧ Filter'.drop size = Filter.drop size ∧
      (0 : Byte) ∈ Filter'.take size ∧
      CStr.ofChars Filter' = CStr.snprintf size (filterRow dog) := by
  obtain ⟨Filter', hwrite, hrest⟩ := snprintfAt_start (filterRow dog) hsize hroom
  refine ⟨Filter', ?_, hrest⟩
  rw [FilterLoop.turn, Nat.sub_zero, hwrite]
  rfl

/-- **The loop** stays in the buffer, and the last row is what it leaves there. -/
theorem loop_leaves {l : List DogPtr} (hl : l.mapM s.dogs = some dogs) (hsize : 0 < size)
    (hroom : size ≤ Filter.length) (hnul : (0 : Byte) ∈ Filter.take size) :
    ∃ Filter', l.foldlM (fun l d => (s.dogs d).bind fun pCuteDog => l.turn size pCuteDog)
        (FilterLoop.mk Filter 0 0) = some ⟨Filter', 0, 0⟩ ∧
      Filter'.length = Filter.length ∧ Filter'.drop size = Filter.drop size ∧
      (0 : Byte) ∈ Filter'.take size ∧
      CStr.ofChars Filter' =
        (dogs.getLast?.map fun dog => CStr.snprintf size (filterRow dog)).getD
          (CStr.ofChars Filter) := by
  induction l generalizing dogs Filter with
  | nil =>
      cases hl
      exact ⟨Filter, rfl, rfl, rfl, hnul, rfl⟩
  | cons d rest ih =>
      rw [List.mapM_cons] at hl
      obtain ⟨dog, hdog, hl⟩ := Option.bind_eq_some_iff.mp hl
      obtain ⟨others, hothers, hl⟩ := Option.bind_eq_some_iff.mp hl
      cases hl
      obtain ⟨Filter₁, hturn, hlen₁, hdrop₁, hnul₁, htext₁⟩ := turn_start dog hsize hroom
      obtain ⟨Filter', hloop, hlen, hdrop, hnul', htext⟩ :=
        ih hothers (hlen₁ ▸ hroom) hnul₁
      -- `head` and `pos` are 0 again after the turn, so the rest runs from the same place
      refine ⟨Filter', ?_, hlen.trans hlen₁, hdrop.trans hdrop₁, hnul', ?_⟩
      · rw [List.foldlM_cons, hdog]
        show Option.bind (FilterLoop.turn size _ dog) _ = _
        rw [hturn]
        exact hloop
      · rw [htext, List.getLast?_cons, htext₁]
        cases others.getLast? with
        | none => rfl
        | some e => rfl

variable (hl : s.listed = some dogs) (hroom : size ≤ Filter.length)
  (hzero : Filter.take size = List.replicate size 0)

include hl hroom hzero

/-- **What the call leaves in the zeroed buffer** is the text `GetAllCuteDogsFilterString` gives. -/
theorem GetAllCuteDogsFilterStringIn_eq (hsize : 0 < size) :
    ∃ Filter', s.GetAllCuteDogsFilterStringIn Filter size = some Filter' ∧
      Filter'.length = Filter.length ∧ Filter'.drop size = Filter.drop size ∧
      (0 : Byte) ∈ Filter'.take size ∧
      s.GetAllCuteDogsFilterString size = some (CStr.ofChars Filter') := by
  have hnul : (0 : Byte) ∈ Filter.take size := by
    rw [hzero]
    exact List.mem_replicate.mpr ⟨Nat.ne_of_gt hsize, rfl⟩
  -- without dogs the text is what a zeroed buffer holds
  have hempty : CStr.ofChars Filter = CStr.lit "" := by
    obtain ⟨b, rest, rfl⟩ : ∃ b rest, Filter = b :: rest :=
      List.exists_cons_of_length_pos (Nat.lt_of_lt_of_le hsize hroom)
    obtain ⟨n, rfl⟩ := Nat.exists_eq_succ_of_ne_zero (Nat.ne_of_gt hsize)
    rw [List.take_succ_cons, List.replicate_succ] at hzero
    obtain ⟨rfl, -⟩ := List.cons.inj hzero
    rfl
  obtain ⟨Filter', hloop, hlen, hdrop, hnul', htext⟩ := loop_leaves hl hsize hroom hnul
  refine ⟨Filter', ?_, hlen, hdrop, hnul', ?_⟩
  · rw [Server.GetAllCuteDogsFilterStringIn, hloop]
    rfl
  · rw [GetAllCuteDogsFilterString_eq hl, htext, hempty]

omit hroom hzero in
/-- With no room at all nothing is written. -/
theorem GetAllCuteDogsFilterStringIn_zero :
    s.GetAllCuteDogsFilterStringIn Filter 0 = some Filter := by
  have hloop : ∀ (l : List DogPtr) (dogs : List CUTEDOG), l.mapM s.dogs = some dogs →
      l.foldlM (fun l d => (s.dogs d).bind fun pCuteDog => l.turn 0 pCuteDog)
        (FilterLoop.mk Filter 0 0) = some ⟨Filter, 0, 0⟩ := by
    intro l
    induction l with
    | nil => exact fun _ _ => rfl
    | cons d rest ih =>
        intro dogs hl
        rw [List.mapM_cons] at hl
        obtain ⟨dog, hdog, hl⟩ := Option.bind_eq_some_iff.mp hl
        obtain ⟨others, hothers, -⟩ := Option.bind_eq_some_iff.mp hl
        rw [List.foldlM_cons, hdog]
        exact ih others hothers
  rw [Server.GetAllCuteDogsFilterStringIn, hloop _ _ hl]
  rfl

/-- The rows are all in the buffer, and nothing is written behind it, exactly when there is a buffer and
no more than one dog is listed or the rows do not fit. -/
theorem filters_serialised :
    ∃ Filter', s.GetAllCuteDogsFilterStringIn Filter size = some Filter' ∧
      (Serialised size dogs Filter Filter' ↔
        0 < size ∧ (dogs.length ≤ 1 ∨ ¬RowsFit size dogs)) := by
  rcases Nat.eq_zero_or_pos size with rfl | hsize
  · -- no NUL fits into a buffer of size 0
    refine ⟨Filter, GetAllCuteDogsFilterStringIn_zero hl, iff_of_false (fun h => ?_) ?_⟩
    · exact List.not_mem_nil h.terminated
    · exact fun h => absurd h.1 (Nat.lt_irrefl 0)
  obtain ⟨Filter', hrun, hlen, hdrop, hnul, htext⟩ :=
    GetAllCuteDogsFilterStringIn_eq hl hroom hzero hsize
  rw [GetAllCuteDogsFilterString_eq hl, Option.some_inj] at htext
  have hiff : Serialised size dogs Filter Filter' ↔
      (RowsFit size dogs → (CStr.ofChars Filter').chars = rowsOf dogs) :=
    ⟨fun h => h.complete, fun h => ⟨h, ⟨hlen, hdrop⟩, hnul⟩⟩
  refine ⟨Filter', hrun, ?_⟩
  rw [hiff, and_iff_right hsize, ← htext]
  -- the last row is what is left
  rcases List.eq_nil_or_concat dogs with rfl | ⟨init, dog, rfl⟩
  · exact iff_of_true (fun _ => rfl) (Or.inl (Nat.zero_le 1))
  · rw [List.concat_eq_append, List.getLast?_concat, Option.map_some, Option.getD_some]
    constructor
    · intro hall
      refine or_iff_not_imp_right.mpr fun hno => ?_
      have hfit := not_not.mp hno
      have hsame := hall hfit
      rw [hfit.last, rowsOf_append, rowsOf_singleton] at hsame
      -- every row has a byte, so the rows before the last one are none
      have hlength := congrArg List.length hsame
      have hrows := length_rowsOf init
      rw [List.length_append] at hlength ⊢
      rw [List.length_singleton]
      omega
    · rintro (hle | hno) hfit
      · have hnil : init = [] := by
          rw [List.length_append, List.length_singleton] at hle
          exact List.length_eq_zero_iff.mp (by omega)
        rw [hfit.last, hnil, List.nil_append, rowsOf_singleton]
      · exact absurd hfit hno

end Loop

/-! ## Two dogs -/

/-- One dog is listed, and its row is in the reply. -/
theorem filters_serialised_one : ∃ (s : Server) (Filter' : List Byte),
    s.GetAllCuteDogsFilterStringIn (List.replicate 1024 0) 1024 = some Filter' ∧
      (Serialised 1024 [newDog 0 .tidp (CStr.lit "a") (CStr.lit "tcp") 15]
          (List.replicate 1024 0) Filter' ↔
        0 < 1024 ∧ (1 ≤ 1 ∨
          ¬RowsFit 1024 [newDog 0 .tidp (CStr.lit "a") (CStr.lit "tcp") 15])) := by
  obtain ⟨s, -, hs⟩ := first_listed "a" "tcp"
  have hroom : 1024 ≤ (List.replicate 1024 (0 : Byte)).length := by rw [List.length_replicate]
  obtain ⟨Filter', hrun, hiff⟩ := filters_serialised hs hroom
    (by rw [List.take_replicate, Nat.min_self])
  exact ⟨s, Filter', hrun, hiff⟩

/-- **One row of two**: two clients list a dog each. -/
theorem row_overwritten : ¬∀ (s : Server) (dogs : List CUTEDOG) (Filter Filter' : List Byte),
    Reach (serverStep (ι := Iks)) AnyStep (InitServer fun _ => 0) s → s.listed = some dogs →
      Filter = List.replicate 1024 0 →
      s.GetAllCuteDogsFilterStringIn Filter 1024 = some Filter' →
      Serialised 1024 dogs Filter Filter' := by
  intro hall
  obtain ⟨s, hreach, hlist, hnew, hold⟩ := two_dogs
  have hlisted : s.listed = some [newDog 1 .tidp (CStr.lit "a") (CStr.lit "tcp") 14,
      newDog 0 .tidp (CStr.lit "a") (CStr.lit "tcp") 15] := by
    rw [Server.listed, hlist, List.mapM_cons, List.mapM_cons, hnew, hold]
    rfl
  have hroom : 1024 ≤ (List.replicate 1024 (0 : Byte)).length := by rw [List.length_replicate]
  obtain ⟨Filter', hrun, -, -, -, htext⟩ := GetAllCuteDogsFilterStringIn_eq hlisted hroom
    (by rw [List.take_replicate, Nat.min_self]) (by decide)
  have hfit : RowsFit 1024 [newDog 1 .tidp (CStr.lit "a") (CStr.lit "tcp") 14,
      newDog 0 .tidp (CStr.lit "a") (CStr.lit "tcp") 15] :=
    ⟨by decide +kernel, by decide +kernel⟩
  have hrows := (hall s _ _ Filter' hreach hlisted rfl hrun).complete hfit
  rw [GetAllCuteDogsFilterString_eq hlisted, Option.some_inj] at htext
  rw [← htext] at hrows
  exact absurd hrows (by decide +kernel)

end Netflow
