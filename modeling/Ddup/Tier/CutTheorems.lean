/-
Ddup.Tier.CutTheorems — opening a cold log whose end is missing.

A crash can cut the file at any byte. A record that is not whole is refused, so a cut log opens only if
the cut is between two records, and then with what the records before it say.
-/
import Ddup.Tier.LogTheorems

namespace Ddup.Tier

open Ddup.Lib

variable {r : Rec} {t t' : TierStore} {scan : Scan} {rs : List Rec} {h : Header} {bs rest : Bytes}

theorem le_length {w n : Nat} (hread : Dec.le w bs = some (n, rest)) : bs.length = w + rest.length := by
  simp only [Dec.le, Dec.bytes] at hread
  split_ifs at hread with hle
  cases hread
  rw [List.length_drop]
  omega

theorem readHeader_length (hread : readHeader bs = some (h, rest)) :
    bs.length = headerSize + rest.length := by
  simp only [readHeader, Dec.bind_eq_some] at hread
  obtain ⟨_, _, hop, _, _, hdb, _, _, hk, _, _, hv, _, _, hexp, _, _, hrid, hpure⟩ := hread
  cases hpure
  rw [le_length hop, le_length hdb, le_length hk, le_length hv, le_length hexp, le_length hrid, headerSize]
  omega

/-- A record whose body is not all there is refused. -/
theorem replayRecord_short {avail : Nat} (havail : avail < r.body.length) :
    replayRecord scan t r.header avail = none := by
  have hbody : r.header.klen + r.header.vlen = r.body.length := by
    cases r <;> simp [Rec.header, Rec.body]
  simp only [replayRecord, hbody, havail, or_true, if_true]
  split_ifs <;> rfl

/-- A round of the loop. -/
theorem replayLoop_some {fuel : Nat} (hloop : replayLoop scan fuel t = some t') :
    t.file.drop t.fileEnd = [] ∧ t' = t ∨
      ∃ h rest t₁ fuel', readHeader (t.file.drop t.fileEnd) = some (h, rest) ∧
        replayRecord scan t h rest.length = some t₁ ∧ replayLoop scan fuel' t₁ = some t' := by
  cases fuel with
  | zero => cases hloop
  | succ fuel =>
    rw [replayLoop] at hloop
    split at hloop
    · cases hloop
      exact .inl ⟨‹_›, rfl⟩
    · rename_i hdrop
      rw [hdrop]
      split at hloop
      · cases hloop
      · split at hloop
        · cases hloop
        · exact .inr ⟨_, _, _, _, ‹_›, ‹_›, hloop⟩

theorem replayLoop_cut (scan : Scan) (rs : List Rec) : ∀ {pre : Bytes} {t : TierStore} {fuel cut : Nat},
    replayLoop scan fuel t = some t' → (∀ r ∈ rs, r.Fits) → t.file = pre ++ (logBytes rs).take cut →
    t.fileEnd = pre.length → t.file.length ≤ uint64Max →
    ∃ k, t.file = pre ++ logBytes (rs.take k) ∧ t'.file = t.file ∧
      t'.index = logIndex scan t.fileEnd (rs.take k) t.index := by
  induction rs with
  | nil =>
    intro pre t fuel cut hloop _ hfile hend _
    rcases replayLoop_some hloop with ⟨_, rfl⟩ | ⟨h, rest, _, _, hread, _⟩
    · exact ⟨0, by simpa [logBytes] using hfile, rfl, rfl⟩
    · have hlen := readHeader_length hread
      simp [hfile, hend, logBytes, headerSize] at hlen
      omega
  | cons r rs ih =>
    intro pre t fuel cut hloop hfits hfile hend hmax
    have hrest : t.file.drop t.fileEnd = (logBytes (r :: rs)).take cut := by
      rw [hfile, hend, List.drop_left]
    rcases replayLoop_some hloop with ⟨hdone, rfl⟩ | ⟨h, rest, t₁, fuel', hread, hrec, hloop'⟩
    · rw [hrest] at hdone
      rw [hdone] at hfile
      exact ⟨0, hfile, rfl, rfl⟩
    have hhead : headerSize ≤ cut := by
      have hlen := readHeader_length hread
      rw [hrest, List.length_take] at hlen
      omega
    have hbytes : (logBytes (r :: rs)).take cut
        = r.header.bytes ++ (r.body ++ logBytes rs).take (cut - headerSize) := by
      have hcons : logBytes (r :: rs) = r.header.bytes ++ (r.body ++ logBytes rs) := by
        simp [logBytes, Rec.bytes]
      rw [hcons, List.take_append, Header.bytes_length,
        List.take_of_length_le (by rwa [Header.bytes_length])]
    rw [hrest, hbytes, Rec.header_reads (hfits r (List.mem_cons_self ..))] at hread
    cases hread
    by_cases hwhole : r.body.length ≤ cut - headerSize
    · have hlog : t.file = (pre ++ r.bytes) ++ (logBytes rs).take (cut - headerSize - r.body.length) := by
        rw [hfile, hbytes, List.take_append, List.take_of_length_le hwhole]
        simp [Rec.bytes]
      have hlen := congrArg List.length hlog
      rw [List.length_append, List.length_append, Rec.bytes_length] at hlen
      rw [replayRecord_rec scan (hfits r (List.mem_cons_self ..)) _ (by simp; omega) (by omega)] at hrec
      obtain ⟨n, -, rfl⟩ := Option.map_eq_some_iff.mp hrec
      obtain ⟨k, hk, hsame, hindex⟩ := ih hloop' (fun x hx => hfits x (List.mem_cons_of_mem _ hx)) hlog
        (by rw [List.length_append, Rec.bytes_length, ← hend]) hmax
      refine ⟨k + 1, ?_, hsame, hindex⟩
      rw [hk]
      simp [logBytes]
    · rw [replayRecord_short (by simp; omega)] at hrec
      cases hrec

theorem runCalls_tracked : ∀ {calls : List Call} {t : TierStore} {g : Ids}, Tracked scan t g →
    runCalls scan t calls = some t' → ∃ g', Tracked scan t' g'
  | [], _, g, htrack, hrun => by
    cases hrun
    exact ⟨g, htrack⟩
  | c :: cs, t, g, htrack, hrun => by
    rw [runCalls, Option.bind_eq_some_iff] at hrun
    obtain ⟨t₁, hstep, hrest⟩ := hrun
    exact runCalls_tracked (step_tracked htrack hstep) hrest

end Ddup.Tier
