/-
Ddup.Ds.ListpackTheorems — a listpack is the list of its elements.

`image n xs` is the buffer of the list `xs` with `n` in its count field. Its entries lie at the
offsets of `Lib.Packing`, so walking it either way is a cursor that moves over these offsets, and
an insertion or a deletion splices the list. A run of edits on a new listpack therefore does to
the buffer what the same edits do to the list, as long as each element is short enough for the
32-bit sum in `lp_encode_entry`; one that is not loses its contents.
-/
import Ddup.Ds.ListpackEntryTheorems

namespace Ddup.Ds

open Ddup.Lib Ddup.Command
open List (append_assoc length_append)
open Nat (lt_of_not_le)
open Prod (fst)

variable {k len : Nat} {x : Bytes} {s : Bytes} {p : Option Nat} {w : Where}

/-! ## Layout -/

def packedBytes (xs : List Bytes) : Nat := 7 + (pack lpEncodeEntry xs).length

/-- The buffer of a list. -/
def image (n : Nat) (xs : List Bytes) : Bytes :=
  leBytes 4 (packedBytes xs) ++ (leBytes 2 n ++ (pack lpEncodeEntry xs ++ [lpEof]))

/-- Where the `k`-th entry starts; the last position is that of the final byte. -/
def pos (xs : List Bytes) (k : Nat) : Nat := lpHdrSize + offset lpEncodeEntry xs k

structure Packable (xs : List Bytes) : Prop where
  short : ∀ x ∈ xs, Short x
  bytes : packedBytes xs ≤ uint32Max

variable {n : Nat} {xs : List Bytes}

theorem image_length (n : Nat) (xs : List Bytes) : (image n xs).length = packedBytes xs := by
  simp only [image, packedBytes, length_append, leBytes_length, List.length_singleton]
  omega

theorem lpLoadTotal_image (h : Packable xs) : lpLoadTotal (image n xs) = packedBytes xs := by
  have hbytes := h.bytes
  unfold uint32Max at hbytes
  rw [lpLoadTotal, image, List.take_left' (leBytes_length 4 _), leNat_leBytes_of_lt (by omega)]

theorem lpLoadNumele_image (hn : n < 65536) : lpLoadNumele (image n xs) = n := by
  rw [lpLoadNumele, image, List.drop_left' (leBytes_length 4 _),
    List.take_left' (leBytes_length 2 _), leNat_leBytes_of_lt hn]

theorem drop_header (n : Nat) (xs : List Bytes) (k : Nat) :
    (image n xs).drop (lpHdrSize + k) = (pack lpEncodeEntry xs ++ [lpEof]).drop k := by
  have hheader : (leBytes 4 (packedBytes xs) ++ leBytes 2 n).length = lpHdrSize := by rfl
  rw [image, ← append_assoc, ← hheader, List.drop_length_add_append]

theorem drop_pos (n : Nat) (xs : List Bytes) (k : Nat) :
    (image n xs).drop (pos xs k) = pack lpEncodeEntry (xs.drop k) ++ [lpEof] := by
  rw [pos, drop_header, List.drop_append_of_le_length (offset_le _ _ _), drop_offset]

theorem take_pos (n : Nat) (xs : List Bytes) (k : Nat) :
    (image n xs).take (pos xs k)
      = leBytes 4 (packedBytes xs) ++ (leBytes 2 n ++ pack lpEncodeEntry (xs.take k)) := by
  have hheader : (leBytes 4 (packedBytes xs) ++ leBytes 2 n).length = lpHdrSize := by rfl
  rw [image, ← append_assoc, pos, ← hheader, List.take_length_add_append,
    List.take_append_of_le_length (offset_le _ _ _), take_offset, append_assoc]

theorem getD_eq_drop (lp : Bytes) (p : Nat) : lp.getD p 0 = (lp.drop p).getD 0 0 := by
  rw [List.getD_eq_getElem?_getD, List.getD_eq_getElem?_getD, List.getElem?_drop, Nat.add_zero]

theorem drop_pos_of_get (hx : xs[k]? = some x) (n : Nat) :
    (image n xs).drop (pos xs k)
      = lpEncodeEntry x ++ (pack lpEncodeEntry (xs.drop (k + 1)) ++ [lpEof]) := by
  obtain ⟨hlt, rfl⟩ := List.getElem?_eq_some_iff.mp hx
  rw [drop_pos, List.drop_eq_getElem_cons hlt, pack_cons, append_assoc]

theorem pos_succ (hx : xs[k]? = some x) : pos xs (k + 1) = pos xs k + (lpEncodeEntry x).length := by
  rw [pos, pos, offset_succ _ hx, Nat.add_assoc]

theorem pos_lt_packedBytes (xs : List Bytes) (k : Nat) : pos xs k < packedBytes xs := by
  have hle := offset_le lpEncodeEntry xs k
  unfold pos packedBytes lpHdrSize
  omega

theorem pos_length (xs : List Bytes) : pos xs xs.length = packedBytes xs - 1 := by
  unfold pos packedBytes lpHdrSize
  rw [offset_length]
  omega

/-! ## Walking -/

theorem Packable.short_get (h : Packable xs) (hx : xs[k]? = some x) : Short x := h.short x (List.mem_of_getElem? hx)

theorem lpEntryPayloadSize_pos (h : Packable xs) (hx : xs[k]? = some x) :
    lpEntryPayloadSize (image n xs) (pos xs k) = (lpBody x).length := by
  have hshort := h.short_get hx
  have hsucc := pos_succ hx
  have hlt := pos_lt_packedBytes xs (k + 1)
  have hlen := lpEncodeEntry_length hshort
  rw [lpEntryPayloadSize, lpLoadTotal_image h, drop_pos_of_get hx]
  exact payloadSize_entry hshort _ (by omega)

theorem entry_total (h : Short x) :
    (lpBody x).length + lpBacklenSize (lpBody x).length = (lpEncodeEntry x).length :=
  (lpEncodeEntry_length h).symm

theorem body_ne_max (h : Short x) : (lpBody x).length ≠ uint64Max := by
  have hlt := (lpBody_codes h).short
  unfold uint64Max
  omega

theorem getD_pos_eq_eof (h : Packable xs) (n k : Nat) :
    ((image n xs).getD (pos xs k) 0 == lpEof) = decide (xs.length ≤ k) := by
  rw [getD_eq_drop, Bool.eq_iff_iff, beq_iff_eq, decide_eq_true_iff]
  cases hx : xs[k]? with
  | none =>
    have hle := List.getElem?_eq_none_iff.mp hx
    rw [drop_pos, List.drop_eq_nil_of_le hle]
    simp [hle]
  | some x =>
    obtain ⟨hlt, -⟩ := List.getElem?_eq_some_iff.mp hx
    rw [drop_pos_of_get hx]
    have hne := getD_entry_ne_eof (h.short_get hx) (pack lpEncodeEntry (xs.drop (k + 1)) ++ [lpEof])
    constructor
    · exact fun heq => absurd heq hne
    · exact fun hle => absurd hlt (by omega)

theorem lpNext_ahead (h : Packable xs) (n : Nat) :
    Ahead (lpNext (image n xs)) (pos xs) xs.length := by
  intro k hk
  have hx : xs[k]? = some xs[k] := List.getElem?_eq_getElem hk
  have hshort := h.short_get hx
  have hlt := pos_lt_packedBytes xs (k + 1)
  simp only [lpNext, lpLoadTotal_image h, lpEntryPayloadSize_pos h hx, entry_total hshort,
    ← pos_succ hx]
  rw [if_neg (body_ne_max hshort), if_neg (by omega), getD_pos_eq_eof h]
  by_cases hnext : k + 1 < xs.length
  · simp [hnext]
  · simp [Nat.le_of_not_lt hnext]

theorem lpPrev_back (h : Packable xs) (n : Nat) :
    Back (lpPrev (image n xs)) (pos xs) xs.length := by
  intro k hk
  cases k with
  | zero => rfl
  | succ k =>
    have hx : xs[k]? = some xs[k] := List.getElem?_eq_getElem hk
    have hshort := h.short_get hx
    have hsucc := pos_succ hx
    have hpos : lpHdrSize ≤ pos xs k := Nat.le_add_right _ _
    have hentry := lpEncodeEntry_pos hshort
    -- the buffer, cut before and behind the back-length of the entry before `k + 1`
    have hcut : image n xs = ((image n xs).take (pos xs k) ++ lpBody xs[k])
        ++ (lpEncodeBacklen (lpBody xs[k]).length
          ++ (pack lpEncodeEntry (xs.drop (k + 1)) ++ [lpEof])) := by
      rw [append_assoc, ← append_assoc (lpBody xs[k]), ← lpEncodeEntry_eq hshort,
        ← drop_pos_of_get hx n, List.take_append_drop]
    have htake : ((image n xs).take (pos xs k) ++ lpBody xs[k]).length
        = pos xs k + (lpBody xs[k]).length := by
      have hle := pos_lt_packedBytes xs k
      rw [length_append, List.length_take, image_length, Nat.min_eq_left hle.le]
    have hback : lpDecodeBacklen (image n xs) (pos xs (k + 1)) = (lpBody xs[k]).length := by
      have hdecode := lpDecodeBacklen_encode (pack lpEncodeEntry (xs.drop (k + 1)) ++ [lpEof])
        (htake ▸ hpos.trans (Nat.le_add_right _ _)) (lpBody_codes hshort).short
      rw [← hcut, htake, Nat.add_assoc, entry_total hshort, ← hsucc] at hdecode
      exact hdecode
    simp only [lpPrev, hback, entry_total hshort]
    rw [if_neg (by omega), if_neg (body_ne_max hshort), if_neg (by omega), if_neg (by omega), hsucc, Nat.add_sub_cancel]
    rfl

theorem lpFirst_image (h : Packable xs) (n : Nat) :
    lpFirst (image n xs) = if 0 < xs.length then some (pos xs 0) else none := by
  have hzero : pos xs 0 = lpHdrSize := by rw [pos, offset_zero, Nat.add_zero]
  rw [lpFirst, ← hzero, getD_pos_eq_eof h]
  by_cases hpos : 0 < xs.length
  · simp [Nat.not_le.mpr hpos]
  · simp [Nat.le_of_not_lt hpos]

theorem offset_pos (h : Packable xs) (hne : 0 < xs.length) :
    0 < offset lpEncodeEntry xs xs.length := by
  obtain ⟨x, xs', rfl⟩ := List.exists_cons_of_length_pos hne
  have hentry := lpEncodeEntry_pos (h.short x List.mem_cons_self)
  rw [offset_length, pack_cons, length_append]
  omega

theorem lpLast_image (h : Packable xs) (n : Nat) :
    lpLast (image n xs) = if 0 < xs.length then some (pos xs (xs.length - 1)) else none := by
  have hend := pos_length xs
  rw [lpLast, lpLoadTotal_image h, ← hend]
  by_cases hne : 0 < xs.length
  · have hlarge := offset_pos h hne
    have hback := lpPrev_back h n xs.length (Nat.le_refl _)
    rw [if_neg (by unfold pos; omega), hback, if_neg (by omega), if_pos hne]
  · have hnil : xs.length = 0 := by omega
    rw [if_pos (by rw [hnil, pos, offset_zero, Nat.add_zero]), if_neg hne]

/-- The element an index stands for, counted from the end if it is negative. -/
def resolve (len : Nat) (index : Int) : Option Nat :=
  let i := if index < 0 then index + len else index
  if 0 ≤ i ∧ i < len then some i.toNat else none

theorem resolve_lt {index : Int} (h : resolve len index = some k) : k < len := by
  unfold resolve at h
  dsimp only at h
  split_ifs at h <;> · injection h with h; omega

theorem resolve_ofNat (index : Nat) :
    resolve len index = if index < len then some index else none := by
  have hnat : ¬ (index : Int) < 0 := by omega
  simp only [resolve, hnat, if_false]
  by_cases hlt : index < len
  · rw [if_pos (show 0 ≤ (index : Int) ∧ (index : Int) < len by omega), if_pos hlt,
      Int.toNat_natCast]
  · rw [if_neg (show ¬ (0 ≤ (index : Int) ∧ (index : Int) < len) by omega), if_neg hlt]

/-- The count field: exact, or unknown. -/
def CountOk (n len : Nat) : Prop := n = lpNumeleUnknown ∨ n = len ∧ len < lpNumeleUnknown

theorem CountOk.lt (h : CountOk n len) : n < 65536 := by
  unfold CountOk lpNumeleUnknown at h
  omega

theorem moveN_next (h : Packable xs) (n i : Nat) :
    moveN (lpNext (image n xs)) i (lpFirst (image n xs))
      = if i < xs.length then some (pos xs i) else none := by
  rw [lpFirst_image h]
  by_cases hne : 0 < xs.length
  · rw [if_pos hne, moveN_ahead (lpNext_ahead h n) i 0 hne, Nat.zero_add]
  · rw [if_neg hne, moveN_none, if_neg (by omega)]

theorem moveN_prev (h : Packable xs) (n i : Nat) :
    moveN (lpPrev (image n xs)) i (lpLast (image n xs))
      = if i < xs.length then some (pos xs (xs.length - 1 - i)) else none := by
  rw [lpLast_image h]
  by_cases hne : 0 < xs.length
  · rw [if_pos hne, moveN_back (lpPrev_back h n) i (xs.length - 1) (by omega)]
    by_cases hlt : i < xs.length
    · rw [if_pos (by omega), if_pos hlt]
    · rw [if_neg (by omega), if_neg hlt]
  · rw [if_neg hne, moveN_none, if_neg (by omega)]

theorem lpSeek_image (h : Packable xs) (hn : CountOk n xs.length) (index : Int) :
    lpSeek (image n xs) index = (resolve xs.length index).map (pos xs) := by
  unfold lpSeek resolve
  simp only [lpLoadNumele_image hn.lt, moveN_next h, moveN_prev h]
  rcases hn with rfl | ⟨rfl, hlt⟩
  · rw [if_neg (by simp)]
    by_cases hneg : index < 0
    · rw [if_pos hneg, if_pos hneg]
      by_cases hin : 0 ≤ index + xs.length
      · have hk : xs.length - 1 - (-index - 1).toNat = (index + xs.length).toNat := by omega
        rw [if_pos (by omega), if_pos (by omega), hk]
        rfl
      · rw [if_neg (by omega), if_neg (by omega)]
        rfl
    · rw [if_neg hneg, if_neg hneg]
      by_cases hin : index < xs.length
      · rw [if_pos (by omega), if_pos (by omega)]
        rfl
      · rw [if_neg (by omega), if_neg (by omega)]
        rfl
  · rw [if_pos (by omega)]
    generalize (if index < 0 then index + xs.length else index) = i
    by_cases hin : 0 ≤ i ∧ i < xs.length
    · rw [if_neg (by omega), if_pos hin]
      by_cases hfar : i > (xs.length / 2 : Nat)
      · have hk : xs.length - 1 - (xs.length - i - 1).toNat = i.toNat := by omega
        rw [if_pos hfar, if_pos (by omega), hk]
        rfl
      · rw [if_neg hfar, if_pos (by omega)]
        rfl
    · rw [if_pos (by omega), if_neg hin]
      rfl

theorem length_le_pack (h : ∀ x ∈ xs, Short x) :
    2 * xs.length ≤ (pack lpEncodeEntry xs).length := by
  induction xs with
  | nil => exact Nat.le_refl _
  | cons x xs ih =>
    have hentry := lpEncodeEntry_two (h x List.mem_cons_self)
    have hrest := ih fun y hy => h y (List.mem_cons_of_mem _ hy)
    rw [pack_cons, length_append, List.length_cons]
    omega

theorem Packable.length_lt (h : Packable xs) (n : Nat) : xs.length < (image n xs).length := by
  have hle := length_le_pack h.short
  rw [image_length, packedBytes]
  omega

theorem lpLength_image (h : Packable xs) (hn : CountOk n xs.length) :
    lpLength (image n xs) = xs.length := by
  have hlen := h.length_lt n
  rw [lpLength, lpLoadNumele_image hn.lt, lpFirst_image h]
  rcases hn with rfl | ⟨rfl, hlt⟩
  · rw [if_neg (by simp)]
    by_cases hne : 0 < xs.length
    · rw [if_pos hne, countMoves_ahead (lpNext_ahead h _) _ 0 hne (by omega), Nat.sub_zero]
    have hcount : ∀ fuel, countMoves (lpNext (image lpNumeleUnknown xs)) fuel none = 0 := by
      intro fuel
      cases fuel <;> rfl
    rw [if_neg hne, hcount]
    omega
  · rw [if_pos (by omega)]

/-! ## Edits -/

/-- A listpack that holds a list. -/
structure Packs (lp : Bytes) (xs : List Bytes) : Prop where
  packable : Packable xs
  layout : ∃ n, CountOk n xs.length ∧ lp = image n xs

theorem lpNew_packs : Packs lpNew [] :=
  ⟨⟨by simp, by decide⟩, 0, .inr ⟨rfl, by decide⟩, rfl⟩

theorem packedBytes_insertIdx (hk : k ≤ xs.length) (s : Bytes) :
    packedBytes (xs.insertIdx k s) = packedBytes xs + (lpEncodeEntry s).length := by
  have hsplit := congrArg List.length (List.take_append_drop (offset lpEncodeEntry xs k)
    (pack lpEncodeEntry xs))
  rw [length_append] at hsplit
  rw [packedBytes, pack_insertIdx _ hk, packedBytes, length_append, length_append]
  omega

theorem packedBytes_eraseIdx (hx : xs[k]? = some x) :
    packedBytes (xs.eraseIdx k) + (lpEncodeEntry x).length = packedBytes xs := by
  have hle := offset_le lpEncodeEntry xs (k + 1)
  have hsucc := offset_succ lpEncodeEntry hx
  rw [packedBytes, pack_eraseIdx, packedBytes, length_append, List.length_take, List.length_drop]
  omega

theorem lpStoreNumele_image (n m : Nat) (xs : List Bytes) :
    lpStoreNumele (image n xs) m = image m xs := by
  have hrest : (image n xs).drop 6 = pack lpEncodeEntry xs ++ [lpEof] := drop_header n xs 0
  have hfirst : (image n xs).take 4 = leBytes 4 (packedBytes xs) := by
    rw [image, List.take_left' (leBytes_length 4 _)]
  rw [lpStoreNumele, hrest, hfirst, image]

theorem lpBumpNumele_up (hn : CountOk n len) (ys : List Bytes) :
    ∃ m, CountOk m (len + 1) ∧ lpBumpNumele (image n ys) true = image m ys := by
  rw [lpBumpNumele, lpLoadNumele_image hn.lt]
  rcases hn with rfl | ⟨rfl, hlt⟩
  · exact ⟨lpNumeleUnknown, .inl rfl, if_pos rfl⟩
  rw [if_neg (by omega)]
  by_cases hfull : lpNumeleUnknown ≤ n + 1
  · rw [if_pos hfull]
    exact ⟨_, .inl rfl, lpStoreNumele_image _ _ _⟩
  · rw [if_neg hfull]
    exact ⟨_, .inr ⟨rfl, by omega⟩, lpStoreNumele_image _ _ _⟩

theorem lpBumpNumele_down (hn : CountOk n len) (ys : List Bytes) :
    ∃ m, CountOk m (len - 1) ∧ lpBumpNumele (image n ys) false = image m ys := by
  rw [lpBumpNumele, lpLoadNumele_image hn.lt]
  rcases hn with rfl | ⟨rfl, hlt⟩
  · exact ⟨lpNumeleUnknown, .inl rfl, if_pos rfl⟩
  · rw [if_neg (by omega)]
    exact ⟨_, .inr ⟨rfl, by omega⟩, lpStoreNumele_image _ _ _⟩

theorem insertOffset_end (h : Packable xs) (n : Nat) (w : Where) :
    insertOffset (image n xs) none w = pos xs xs.length := by
  rw [insertOffset, lpLoadTotal_image h, pos_length]

theorem insertOffset_after (h : Packable xs) (n : Nat) (hk : k < xs.length) :
    insertOffset (image n xs) (some (pos xs k)) .after = pos xs (k + 1) := by
  have hx : xs[k]? = some xs[k] := List.getElem?_eq_getElem hk
  have hlt := pos_lt_packedBytes xs (k + 1)
  have hbytes := h.bytes
  unfold uint32Max at hbytes
  rw [insertOffset, lpEntryPayloadSize_pos h hx, entry_total (h.short_get hx), ← pos_succ hx]
  exact Nat.mod_eq_of_lt (by omega)

theorem lpInsert_fits (h : Packable xs) (hn : CountOk n xs.length) (hs : Short s)
    (hk : k ≤ xs.length) (hoff : insertOffset (image n xs) p w = pos xs k)
    (hfit : packedBytes (xs.insertIdx k s) ≤ uint32Max) :
    ∃ lp, lpInsert (image n xs) s p w = some (lp, pos xs k) ∧ Packs lp (xs.insertIdx k s) := by
  have hbytes := packedBytes_insertIdx hk s
  obtain ⟨m, hm, hbump⟩ := lpBumpNumele_up hn (xs.insertIdx k s)
  have hsplice : (image n xs).take (pos xs k) ++ (lpEncodeEntry s ++ (image n xs).drop (pos xs k))
      = leBytes 4 (packedBytes xs)
        ++ (leBytes 2 n ++ (pack lpEncodeEntry (xs.insertIdx k s) ++ [lpEof])) := by
    rw [take_pos, drop_pos, insertIdx_eq_take_append_drop s hk, pack_append, pack_cons]
    simp
  refine ⟨image m (xs.insertIdx k s), ?_, ⟨?_, hfit⟩, m, ?_, rfl⟩
  · simp only [lpInsert, lpLoadTotal_image h, hoff, ← hbytes]
    rw [if_neg (Nat.not_lt.mpr hfit), hsplice]
    exact congrArg (fun lp => some (lp, pos xs k)) hbump
  · intro x hx
    rcases (List.mem_insertIdx hk).mp hx with rfl | hx
    · exact hs
    · exact h.short x hx
  · rw [List.length_insertIdx_of_le_length hk]
    exact hm

theorem lpInsert_full (h : Packable xs) (hk : k ≤ xs.length) (hfull : uint32Max < packedBytes (xs.insertIdx k s)) :
    lpInsert (image n xs) s p w = none := by
  rw [packedBytes_insertIdx hk] at hfull
  simp only [lpInsert, lpLoadTotal_image h, if_pos hfull]

/-- A deletion cuts an element out, and hands back the one that followed it. -/
theorem lpDelete_image (h : Packable xs) (hn : CountOk n xs.length) (hk : k < xs.length) :
    ∃ lp, lpDelete (image n xs) (pos xs k)
        = some (lp, if k + 1 < xs.length then some (pos (xs.eraseIdx k) k) else none)
      ∧ Packs lp (xs.eraseIdx k) := by
  have hx : xs[k]? = some xs[k] := List.getElem?_eq_getElem hk
  have hshort := h.short_get hx
  have hbytes := packedBytes_eraseIdx hx
  have hsame : pos (xs.eraseIdx k) k = pos xs k := by
    rw [pos, pos, offset, offset, List.take_eraseIdx_eq_take_of_le _ _ _ (Nat.le_refl k)]
  obtain ⟨m, hm, hbump⟩ := lpBumpNumele_down hn (xs.eraseIdx k)
  have hsplice : (image n xs).take (pos xs k) ++ (image n xs).drop (pos xs (k + 1))
      = leBytes 4 (packedBytes xs)
        ++ (leBytes 2 n ++ (pack lpEncodeEntry (xs.eraseIdx k) ++ [lpEof])) := by
    rw [take_pos, drop_pos, List.eraseIdx_eq_take_drop_succ, pack_append]
    simp
  have hnext : (if packedBytes xs - (lpEncodeEntry xs[k]).length - 1 ≤ pos xs k then none
      else some (pos xs k)) = if k + 1 < xs.length then some (pos xs k) else none := by
    have hsucc := pos_succ hx
    by_cases hlast : k + 1 < xs.length
    · have hy : xs[k + 1]? = some xs[k + 1] := List.getElem?_eq_getElem hlast
      have hlt := pos_lt_packedBytes xs (k + 1 + 1)
      have hlater := pos_succ hy
      have hpos := lpEncodeEntry_pos (h.short_get hy)
      rw [if_neg (by omega), if_pos hlast]
    · have hend := pos_length xs
      have hlen : xs.length = k + 1 := by omega
      rw [hlen] at hend
      rw [if_pos (by omega), if_neg hlast]
  refine ⟨image m (xs.eraseIdx k), ?_, ⟨?_, by have hle := h.bytes; omega⟩, m, ?_, rfl⟩
  · simp only [lpDelete, lpLoadTotal_image h, lpEntryPayloadSize_pos h hx, entry_total hshort,
      getD_pos_eq_eof h]
    rw [if_neg (by simp [Nat.not_le.mpr hk, body_ne_max hshort]), ← pos_succ hx, hsplice, hnext, hsame, ← hbytes, Nat.add_sub_cancel]
    exact congrArg (fun lp => some (lp, _)) hbump
  · exact fun x hx => h.short x (List.mem_of_mem_eraseIdx hx)
  · rw [List.length_eraseIdx_of_lt hk]
    exact hm

/-- A replacement: `lp_delete`, then `lp_insert` where the element was. -/
theorem lpReplace_eq (h : Packable xs) (hn : CountOk n xs.length) (hk : k < xs.length)
    (hs : Short s) :
    (packedBytes (xs.set k s) ≤ uint32Max →
        ∃ lp, lpReplace (image n xs) (pos xs k) s = some lp ∧ Packs lp (xs.set k s)) ∧
      (uint32Max < packedBytes (xs.set k s) → lpReplace (image n xs) (pos xs k) s = none) := by
  obtain ⟨lp, hdelete, hpack, m, hm, rfl⟩ := lpDelete_image h hn hk
  have hset : (xs.eraseIdx k).insertIdx k s = xs.set k s :=
    List.insertIdx_eraseIdx_self (Nat.ne_of_lt hk) s
  have hlen : (xs.eraseIdx k).length = xs.length - 1 := List.length_eraseIdx_of_lt hk
  have hle : k ≤ (xs.eraseIdx k).length := by omega
  have hoff : insertOffset (image m (xs.eraseIdx k))
      (if k + 1 < xs.length then some (pos (xs.eraseIdx k) k) else none) .before
        = pos (xs.eraseIdx k) k := by
    by_cases hlast : k + 1 < xs.length
    · rw [if_pos hlast]
      rfl
    · have hk' : (xs.eraseIdx k).length = k := by omega
      rw [if_neg hlast, insertOffset_end hpack, hk']
  have hstep : lpReplace (image n xs) (pos xs k) s
      = (lpInsert (image m (xs.eraseIdx k)) s
          (if k + 1 < xs.length then some (pos (xs.eraseIdx k) k) else none) .before).map
            fst := by
    rw [lpReplace, hdelete]
    rfl
  constructor
  · intro hfit
    obtain ⟨lp, hinsert, hpacks⟩ := lpInsert_fits hpack hm hs hle hoff (hset ▸ hfit)
    rw [hset] at hpacks
    exact ⟨lp, by rw [hstep, hinsert]; rfl, hpacks⟩
  · intro hfull
    rw [hstep, lpInsert_full hpack hle (hset ▸ hfull)]
    rfl

/-! ## Runs -/

/-- A `long` whose negative is one too. -/
abbrev Index := {i : Int // -(2 ^ 63 : Int) < i ∧ i < 2 ^ 63}

/-- A string whose length is a `uint32_t`. -/
abbrev Element := {s : Bytes // s.length ≤ uint32Max}

inductive LpOp
  | insert (index : Index) (w : Where) (s : Element)
  | append (s : Element)
  | prepend (s : Element)
  | delete (index : Index)
  | replace (index : Index) (s : Element)

def LpOp.value : LpOp → Bytes
  | insert _ _ s | append s | prepend s | replace _ s => s
  | delete _ => []

/-- One edit; a NULL from `lp_seek` makes `lp_insert` append, and `lp_delete` and `lp_replace`
leave the listpack alone. -/
def lpStep (lp : Bytes) : LpOp → Option Bytes
  | .insert i w s => (lpInsert lp s (lpSeek lp i) w).map fst
  | .append s => lpAppend lp s
  | .prepend s => lpPrepend lp s
  | .delete i =>
    match lpSeek lp i with
    | none => some lp
    | some p => (lpDelete lp p).map fst
  | .replace i s =>
    match lpSeek lp i with
    | none => some lp
    | some p => lpReplace lp p s

def lpRun (lp : Bytes) (ops : List LpOp) : Option Bytes := ops.foldlM lpStep lp

def editList (xs : List Bytes) : LpOp → List Bytes
  | .insert i w s =>
    match resolve xs.length i with
    | none => xs ++ [s.1]
    | some k => xs.insertIdx (if w = .before then k else k + 1) s.1
  | .append s => xs ++ [s.1]
  | .prepend s => s.1 :: xs
  | .delete i => (resolve xs.length i).elim xs xs.eraseIdx
  | .replace i s => (resolve xs.length i).elim xs fun k => xs.set k s.1

/-- What one edit comes to: the edited list, or the end of the process if it does not fit. -/
def StepPacks (ys : List Bytes) : Option Bytes → Prop
  | none => uint32Max < packedBytes ys
  | some lp => Packs lp ys

theorem lpInsert_meets (h : Packable xs) (hn : CountOk n xs.length) (hs : Short s)
    (hk : k ≤ xs.length) (hoff : insertOffset (image n xs) p w = pos xs k) :
    match lpInsert (image n xs) s p w with
    | none => uint32Max < packedBytes (xs.insertIdx k s)
    | some r => Packs r.1 (xs.insertIdx k s) ∧ r.2 = pos xs k := by
  by_cases hfit : packedBytes (xs.insertIdx k s) ≤ uint32Max
  · obtain ⟨lp, hinsert, hpacks⟩ := lpInsert_fits h hn hs hk hoff hfit
    rw [hinsert]
    exact ⟨hpacks, rfl⟩
  · rw [lpInsert_full h hk (lt_of_not_le hfit)]
    exact lt_of_not_le hfit

theorem insert_packs (h : Packable xs) (hn : CountOk n xs.length) (hs : Short s)
    (hk : k ≤ xs.length) (hoff : insertOffset (image n xs) p w = pos xs k) :
    StepPacks (xs.insertIdx k s) ((lpInsert (image n xs) s p w).map fst) := by
  have hmeets := lpInsert_meets h hn hs hk hoff
  cases hinsert : lpInsert (image n xs) s p w with
  | none =>
    rw [hinsert] at hmeets
    exact hmeets
  | some r =>
    rw [hinsert] at hmeets
    exact hmeets.1

theorem lpStep_packs {lp : Bytes} (h : Packs lp xs) {op : LpOp} (hop : Short op.value) :
    StepPacks (editList xs op) (lpStep lp op) := by
  obtain ⟨hpack, n, hn, rfl⟩ := h
  cases op with
  | insert i w s =>
    rw [lpStep, editList, lpSeek_image hpack hn]
    cases hk : resolve xs.length i with
    | none =>
      rw [← List.insertIdx_length_self]
      exact insert_packs hpack hn hop (Nat.le_refl _) (insertOffset_end hpack n w)
    | some k =>
      have hlt := resolve_lt hk
      cases w with
      | before => exact insert_packs hpack hn hop hlt.le rfl
      | after => exact insert_packs hpack hn hop hlt (insertOffset_after hpack n hlt)
  | append s =>
    rw [editList, ← List.insertIdx_length_self]
    exact insert_packs hpack hn hop (Nat.le_refl _) (insertOffset_end hpack n .before)
  | prepend s => exact insert_packs hpack hn hop (Nat.zero_le _) rfl
  | delete i =>
    rw [lpStep, editList, lpSeek_image hpack hn]
    cases hk : resolve xs.length i with
    | none => exact ⟨hpack, n, hn, rfl⟩
    | some k =>
      obtain ⟨lp, hdelete, hpacks⟩ := lpDelete_image hpack hn (resolve_lt hk)
      dsimp
      rw [hdelete]
      exact hpacks
  | replace i s =>
    rw [lpStep, editList, lpSeek_image hpack hn]
    cases hk : resolve xs.length i with
    | none => exact ⟨hpack, n, hn, rfl⟩
    | some k =>
      obtain ⟨hfits, hfull⟩ := lpReplace_eq hpack hn (resolve_lt hk) (s := s.1) hop
      dsimp
      by_cases hfit : packedBytes (xs.set k s.1) ≤ uint32Max
      · obtain ⟨lp, hreplace, hpacks⟩ := hfits hfit
        rw [hreplace]
        exact hpacks
      · rw [hfull (lt_of_not_le hfit)]
        exact lt_of_not_le hfit

/-! ## What a listpack shows -/

/-- The entries from the last on, by `lp_prev`. -/
def lpBackward (lp : Bytes) : List Nat := visited (lpPrev lp) lp.length (lpLast lp)

/-- A listpack seen through its functions is the list `xs`. -/
structure Shows (lp : Bytes) (xs : List Bytes) : Prop where
  forward : (lpForward lp).map (fun p => lpGetStr (lp.drop p)) = xs
  backward : lpBackward lp = (lpForward lp).reverse
  get : (lpForward lp).map (fun p => lpGet (lp.drop p)) = xs.map stored
  seek : ∀ i : Index, lpSeek lp i = (resolve xs.length i).bind fun k => (lpForward lp)[k]?
  length : lpLength lp = xs.length
  bytes : lpBytes lp = lp.length

theorem lpForward_image (h : Packable xs) (n : Nat) :
    lpForward (image n xs) = (List.range xs.length).map (pos xs) := by
  have hlen := h.length_lt n
  rw [lpForward, lpFirst_image h]
  by_cases hne : 0 < xs.length
  · rw [if_pos hne, visited_ahead (lpNext_ahead h n) _ 0 hne (by omega), Nat.sub_zero,
      List.range_eq_range']
  have hnil : xs.length = 0 := by omega
  rw [hnil]
  rfl

theorem lpBackward_image (h : Packable xs) (n : Nat) :
    lpBackward (image n xs) = ((List.range xs.length).map (pos xs)).reverse := by
  have hlen := h.length_lt n
  rw [lpBackward, lpLast_image h]
  by_cases hne : 0 < xs.length
  · rw [if_pos hne, visited_back (lpPrev_back h n) _ (xs.length - 1) (by omega) (by omega),
      Nat.sub_add_cancel hne, List.map_reverse]
  have hnil : xs.length = 0 := by omega
  rw [hnil]
  rfl

/-- What is read at every entry, for a reader that does not look past it. -/
theorem map_lpForward {α : Type} (h : Packable xs) (n : Nat) {read : Bytes → α} {f : Bytes → α}
    (hread : ∀ s rest, Short s → read (lpEncodeEntry s ++ rest) = f s) :
    (lpForward (image n xs)).map (fun p => read ((image n xs).drop p)) = xs.map f := by
  rw [lpForward_image h, List.map_map]
  refine List.ext_getElem (by simp) fun k hk hk' => ?_
  have hlt : k < xs.length := by simpa using hk'
  have hx : xs[k]? = some xs[k] := List.getElem?_eq_getElem hlt
  simp only [List.getElem_map, List.getElem_range, Function.comp_apply, drop_pos_of_get hx]
  exact hread _ _ (h.short_get hx)

theorem Packs.shows {lp : Bytes} (h : Packs lp xs) : Shows lp xs := by
  obtain ⟨hpack, n, hn, rfl⟩ := h
  refine ⟨?_, ?_, ?_, ?_, lpLength_image hpack hn, ?_⟩
  · rw [map_lpForward hpack n fun s rest hs => lpGetStr_entry hs rest]
    exact List.map_id' xs
  · rw [lpBackward_image hpack, lpForward_image hpack]
  · exact map_lpForward hpack n fun s rest hs => lpGet_entry hs rest
  · intro i
    rw [lpSeek_image hpack hn, lpForward_image hpack]
    cases hk : resolve xs.length i.1 with
    | none => rfl
    | some k =>
      have hlt := resolve_lt hk
      simp [hlt]
  · rw [lpBytes, lpLoadTotal_image hpack, image_length]

/-! ## The functions on a listpack that holds a list -/

namespace Packs

variable {lp : Bytes} (h : Packs lp xs) {k : Nat} {s : Bytes}

include h

theorem lpFirst_eq (hne : xs ≠ []) : lpFirst lp = some (pos xs 0) := by
  obtain ⟨hpack, n, -, rfl⟩ := h
  rw [lpFirst_image hpack, if_pos (List.length_pos_iff.mpr hne)]

theorem lpLast_eq (hne : xs ≠ []) : lpLast lp = some (pos xs (xs.length - 1)) := by
  obtain ⟨hpack, n, -, rfl⟩ := h
  rw [lpLast_image hpack, if_pos (List.length_pos_iff.mpr hne)]

theorem lpNext_eq (hk : k < xs.length) :
    lpNext lp (pos xs k) = if k + 1 < xs.length then some (pos xs (k + 1)) else none := by
  obtain ⟨hpack, n, -, rfl⟩ := h
  exact lpNext_ahead hpack n k hk

theorem lpPrev_eq (hk : k ≤ xs.length) :
    lpPrev lp (pos xs k) = if k = 0 then none else some (pos xs (k - 1)) := by
  obtain ⟨hpack, n, -, rfl⟩ := h
  exact lpPrev_back hpack n k hk

theorem lpSeek_eq (index : Int) : lpSeek lp index = (resolve xs.length index).map (pos xs) := by
  obtain ⟨hpack, n, hn, rfl⟩ := h
  exact lpSeek_image hpack hn index

theorem lpSeek_nat (hk : k < xs.length) : lpSeek lp k = some (pos xs k) := by
  rw [h.lpSeek_eq, resolve_ofNat, if_pos hk]
  rfl

theorem lpGetStr_eq {x : Bytes} (hx : xs[k]? = some x) : lpGetStr (lp.drop (pos xs k)) = x := by
  obtain ⟨hpack, n, -, rfl⟩ := h
  rw [drop_pos_of_get hx, lpGetStr_entry (hpack.short_get hx)]

theorem lpForward_eq : lpForward lp = (List.range xs.length).map (pos xs) := by
  obtain ⟨hpack, n, -, rfl⟩ := h
  exact lpForward_image hpack n

theorem lpDelete_eq (hk : k < xs.length) :
    ∃ lp', lpDelete lp (pos xs k)
        = some (lp', if k + 1 < xs.length then some (pos (xs.eraseIdx k) k) else none)
      ∧ Packs lp' (xs.eraseIdx k) := by
  obtain ⟨hpack, n, hn, rfl⟩ := h
  exact lpDelete_image hpack hn hk

theorem lpInsert_before (hs : Short s) (hk : k ≤ xs.length) :
    match lpInsert lp s (some (pos xs k)) .before with
    | none => uint32Max < packedBytes (xs.insertIdx k s)
    | some r => Packs r.1 (xs.insertIdx k s) ∧ r.2 = pos xs k := by
  obtain ⟨hpack, n, hn, rfl⟩ := h
  exact lpInsert_meets hpack hn hs hk rfl

theorem lpInsert_after (hs : Short s) (hk : k < xs.length) :
    match lpInsert lp s (some (pos xs k)) .after with
    | none => uint32Max < packedBytes (xs.insertIdx (k + 1) s)
    | some r => Packs r.1 (xs.insertIdx (k + 1) s) ∧ r.2 = pos xs (k + 1) := by
  obtain ⟨hpack, n, hn, rfl⟩ := h
  exact lpInsert_meets hpack hn hs hk (insertOffset_after hpack n hk)

theorem lpAppend_meets (hs : Short s) : StepPacks (xs ++ [s]) (lpAppend lp s) := by
  obtain ⟨hpack, n, hn, rfl⟩ := h
  rw [← List.insertIdx_length_self]
  exact insert_packs hpack hn hs (Nat.le_refl _) (insertOffset_end hpack n .before)

theorem lpPrepend_meets (hs : Short s) : StepPacks (s :: xs) (lpPrepend lp s) := by
  obtain ⟨hpack, n, hn, rfl⟩ := h
  exact insert_packs hpack hn hs (Nat.zero_le _) rfl

theorem lpReplace_meets (hs : Short s) (hk : k < xs.length) :
    StepPacks (xs.set k s) (lpReplace lp (pos xs k) s) := by
  obtain ⟨hpack, n, hn, rfl⟩ := h
  obtain ⟨hfits, hfull⟩ := lpReplace_eq hpack hn hk hs
  by_cases hfit : packedBytes (xs.set k s) ≤ uint32Max
  · obtain ⟨lp, hreplace, hpacks⟩ := hfits hfit
    rw [hreplace]
    exact hpacks
  · rw [hfull (lt_of_not_le hfit)]
    exact lt_of_not_le hfit

end Packs

/-! ## The refinement -/

/-- After a run the listpack shows the list the same edits make, unless the process ended at a
list along the way that needs more than `UINT32_MAX` bytes. -/
def Refined (ops : List LpOp) : Prop :=
  match lpRun lpNew ops with
  | none => ∃ before, before <+: ops ∧ uint32Max < packedBytes (before.foldl editList [])
  | some lp => Shows lp (ops.foldl editList [])

theorem lpRun_packs {ops : List LpOp} (hops : ∀ op ∈ ops, Short op.value) :
    ∀ {lp} {xs}, Packs lp xs →
      match lpRun lp ops with
      | none => ∃ before, before <+: ops ∧ uint32Max < packedBytes (before.foldl editList xs)
      | some lp' => Packs lp' (ops.foldl editList xs) := by
  induction ops with
  | nil => exact fun h => h
  | cons op ops ih =>
    intro lp xs h
    have hstep := lpStep_packs h (hops op List.mem_cons_self)
    rw [lpRun, List.foldlM_cons]
    cases hlp : lpStep lp op with
    | none =>
      rw [hlp] at hstep
      exact ⟨[op], ⟨ops, rfl⟩, hstep⟩
    | some lp' =>
      rw [hlp] at hstep
      have hrun := ih (fun o ho => hops o (List.mem_cons_of_mem _ ho)) hstep
      show match lpRun lp' ops with
        | none => _
        | some lp' => _
      cases hend : lpRun lp' ops with
      | none =>
        rw [hend] at hrun
        obtain ⟨before, hprefix, hfull⟩ := hrun
        exact ⟨op :: before, List.cons_prefix_cons.mpr ⟨rfl, hprefix⟩, hfull⟩
      | some last =>
        rw [hend] at hrun
        exact hrun

/-- Every run of edits with elements of fewer than 2^32 - 5 bytes. -/
theorem lpRun_refined (ops : List LpOp) (hshort : ∀ op ∈ ops, op.value.length + 5 < 2 ^ 32) :
    Refined ops := by
  have hrun := lpRun_packs hshort lpNew_packs
  unfold Refined
  cases hend : lpRun lpNew ops with
  | none =>
    rw [hend] at hrun
    exact hrun
  | some lp =>
    rw [hend] at hrun
    exact hrun.shows

theorem lpRun_refined_four :
    Refined [.append ⟨[49, 50], by decide⟩, .insert ⟨0, by decide⟩ .before ⟨[97], by decide⟩,
      .replace ⟨-1, by decide⟩ ⟨[], by decide⟩, .delete ⟨0, by decide⟩] :=
  lpRun_refined _ (by decide)

/-! ## An element of 2^32 - 5 bytes -/

/-- `5 + slen` is zero for a string of this length, so all that is stored is a back-length of
zero. -/
theorem lpEncodeEntry_wraps (h : s.length = 2 ^ 32 - 5) : lpEncodeEntry s = [0] := by
  have hint : lpStrToInt64 s = none := by rw [lpStrToInt64, if_pos (by omega)]
  have henclen : (encodeStr s).2 = 0 := by
    rw [encodeStr, h]
    rfl
  rw [lpEncodeEntry, hint]
  rw [henclen, List.take_zero]
  decide

theorem lpAppend_wraps (h : s.length = 2 ^ 32 - 5) :
    lpAppend lpNew s = some [8, 0, 0, 0, 1, 0, 0, 0xFF] := by
  rw [lpAppend, lpInsert, lpEncodeEntry_wraps h]
  decide

theorem lpRun_wraps {s : Element} (h : s.1.length = 2 ^ 32 - 5) :
    lpRun lpNew [.append s] = some [8, 0, 0, 0, 1, 0, 0, 0xFF] := by
  rw [lpRun, List.foldlM_cons, lpStep, lpAppend_wraps h]
  rfl

theorem append_wraps_not_refined {s : Element} (h : s.1.length = 2 ^ 32 - 5) :
    ¬ Refined [.append s] := by
  intro hrefined
  rw [Refined, lpRun_wraps h] at hrefined
  have hforward := hrefined.forward
  injection hforward with hs
  rw [← hs] at h
  exact absurd h (by decide)

theorem longElement_lost : ¬ ∀ ops : List LpOp, Refined ops := by
  intro h
  obtain ⟨s, hs⟩ : ∃ s : Bytes, s.length = 2 ^ 32 - 5 :=
    ⟨List.replicate (2 ^ 32 - 5) 97, List.length_replicate⟩
  have hfits : s.length ≤ uint32Max := by
    rw [hs]
    decide
  exact append_wraps_not_refined (s := ⟨s, hfits⟩) hs (h _)

end Ddup.Ds
