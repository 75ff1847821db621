/-
Ddup.Cluster.NodesConfTheorems — what is left of a node table that is written to `nodes.conf` and read
back.

A line is read field by field: every field but the address, the flags and the slots comes back as it
was. `reread` is the node a line gives, and the table that is read has these nodes in their order; so
the round trip is a matter of each line by itself, and of the room the rendering has for it.
-/
import Ddup.Cluster.NodesConf
import Ddup.Cluster.ViewTheorems

namespace Ddup.Cluster

open Ddup.Lib Ddup.Command Ddup.Resp
open List (append_assoc length_append)
open Option (bind_eq_bind bind_some map_some)
open Prod (fst)

variable {b : Bytes} {c : UInt8} {e : NodeId × ClusterNode}
variable {bm : Bitmap} {cap : Nat} {es : List (NodeId × ClusterNode)} {f : Flags} {m : UInt8}
  {rest : Bytes} {t : NodeTable}

/-! ## Fields -/

/-- Nothing but bytes that end no field: no blank, newline or NUL. -/
def Plain (b : Bytes) : Prop := ∀ c ∈ b, c ≠ 0 ∧ c ≠ 32 ∧ c ≠ 10

theorem Plain.isWord (h : Plain b) (hne : b ≠ []) : IsWord (· == 32) b :=
  ⟨hne, fun c hc => beq_eq_false_iff_ne.mpr (h c hc).2.1⟩

theorem Plain.cString {b : Bytes} (h : Plain b) : cString b = b :=
  List.takeWhile_eq_self_iff.mpr fun c hc => bne_iff_ne.mpr (h c hc).1

theorem Plain.append {a : Bytes} (ha : Plain a) (hb : Plain b) : Plain (a ++ b) := fun c hc =>
  (List.mem_append.mp hc).elim (ha c) (hb c)

theorem plain_digits (n : Nat) : Plain (u64ToStr n) := fun c hc => by
  have hlo := (digits_u64ToStr hc).1
  refine ⟨?_, ?_, ?_⟩ <;> rintro rfl <;> exact absurd hlo (by decide)

theorem Plain.cons (hc : c ≠ 0 ∧ c ≠ 32 ∧ c ≠ 10) (h : Plain b) : Plain (c :: b) := fun x hx => (List.mem_cons.mp hx).elim (fun hx => hx ▸ hc) (h x)

theorem plain_of_hex (h : ∀ c ∈ b, isHex c = true) : Plain b := fun c hc => by
  have hex := h c hc
  refine ⟨?_, ?_, ?_⟩ <;> rintro rfl <;> exact absurd hex (by decide)

theorem token_field {t : Bytes} (ht : IsWord (· == 32) t)
    (hrest : ∀ c ∈ rest.head?, (c == 32) = true) : token (32 :: (t ++ rest)) = (t, rest) := by
  obtain ⟨c, cs, rfl⟩ := List.exists_cons_of_ne_nil ht.nonempty
  have hskip : (32 :: (c :: cs ++ rest)).dropWhile (fun x : UInt8 => x == 32) = c :: cs ++ rest := by
    simp [ht.plain c List.mem_cons_self]
  have hsplit := ht.split hrest
  rw [token, hskip]
  exact Prod.ext hsplit.1 hsplit.2

theorem u64Field_field (v : UInt64) (hrest : ∀ c ∈ rest.head?, (c == 32) = true) :
    u64Field (32 :: (u64ToStr v.toNat ++ rest)) = some (v, rest) := by
  have hne := u64ToStr_ne_nil v.toNat
  have hread : digitLoop u64Ok 0 (u64ToStr v.toNat) = some v.toNat := by
    refine digitLoop_bounded (digitLoop_u64ToStr _) fun x d hle => ?_
    have hlt := v.toNat_lt
    unfold u64Ok uint64Max
    exact decide_eq_true (by omega)
  rw [u64Field, token_field ((plain_digits _).isWord hne) hrest]
  simp only [if_neg hne, hread, bind_eq_bind, bind_some, UInt64.ofNat_toNat]
  rfl

theorem parseU16Token_text (v : UInt16) : parseU16Token (u64ToStr v.toNat) = some v := by
  have hread : digitLoop u16Ok 0 (u64ToStr v.toNat) = some v.toNat := by
    refine digitLoop_bounded (digitLoop_u64ToStr _) fun x d hle => ?_
    have hlt := v.toNat_lt
    exact decide_eq_true (by omega)
  rw [parseU16Token, if_neg (u64ToStr_ne_nil _), hread, map_some, UInt16.ofNat_toNat]

/-! ## Addresses -/

theorem print_self (hcap : 0 < cap) (s : CStr cap) : CStr.print cap hcap s.1 = s := by
  have hplain : s.1.takeWhile (· != 0) = s.1 :=
    List.takeWhile_eq_self_iff.mpr fun c hc => bne_iff_ne.mpr fun h => s.2.2 (h ▸ hc)
  have hlen := s.2.1
  refine Subtype.ext ?_
  show (s.1.takeWhile (· != 0)).take (cap - 1) = s.1
  rw [hplain, List.take_of_length_le (by omega)]

/-- An address has neither of the marks that end its parts. -/
def PlainIp (n : ClusterNode) : Prop := 58 ∉ n.ip.1 ∧ 64 ∉ n.ip.1

theorem mark_notMem_digits (hm : 57 < m) (n : Nat) : m ∉ u64ToStr n := fun h =>
  absurd (digits_u64ToStr h).2 (UInt8.not_le.mpr hm)

theorem plain_port (n : ClusterNode) :
    Plain (58 :: (u64ToStr n.port.toNat ++ 64 :: u64ToStr n.busPort.toNat)) :=
  ((plain_digits _).append ((plain_digits _).cons (by decide))).cons (by decide)

theorem cString_addrText (n : ClusterNode) : cString (addrText n) = addrText n := by
  refine List.takeWhile_eq_self_iff.mpr fun c hc => bne_iff_ne.mpr ?_
  rcases List.mem_append.mp hc with hc | hc
  · exact fun h => n.ip.2.2 (h ▸ hc)
  · exact (plain_port n c hc).1

theorem parseAddr_addrText {n : ClusterNode} (h : PlainIp n) :
    parseAddr (addrText n) = some (n.ip, n.port, n.busPort) := by
  have hcolon := split_at_mark (u64ToStr n.port.toNat ++ 64 :: u64ToStr n.busPort.toNat) h.1
  have hport : (58 :: (u64ToStr n.port.toNat ++ 64 :: u64ToStr n.busPort.toNat)).takeWhile (· != 64)
      = 58 :: u64ToStr n.port.toNat := by
    have hdigits := split_at_mark (u64ToStr n.busPort.toNat)
      (mark_notMem_digits (m := 64) (by decide) n.port.toNat)
    rw [List.takeWhile_cons_of_pos (by decide), hdigits.1]
  have hbus : (addrText n).dropWhile (· != 64) = 64 :: u64ToStr n.busPort.toNat := by
    have hfront : 64 ∉ n.ip.1 ++ 58 :: u64ToStr n.port.toNat := by
      intro hmem
      rcases List.mem_append.mp hmem with hmem | hmem
      · exact h.2 hmem
      rcases List.mem_cons.mp hmem with hmem | hmem
      · exact absurd hmem (by decide)
      · exact mark_notMem_digits (by decide) _ hmem
    have hsplit := (split_at_mark (u64ToStr n.busPort.toNat) hfront).2
    rwa [append_assoc] at hsplit
  have hlen : ¬ (64 ≤ n.ip.1.length ∨ n.ip.1.contains 64 = true) := by
    have := n.ip.2.1
    rintro (hlen | hmem)
    · omega
    · exact h.2 (List.contains_iff_mem.mp hmem)
  unfold parseAddr
  simp only [cString_addrText, hbus]
  simp only [addrText, hcolon.1, hcolon.2, if_neg hlen, hport, portBehind, parseU16Token_text,
    print_self]
  rfl

/-- The address that is read ends at its first colon, and has no `@` in it. -/
theorem plainIp_of_parseAddr {n : ClusterNode} {p b : UInt16}
    (h : parseAddr (addrText n) = some (n.ip, p, b)) : PlainIp n := by
  unfold parseAddr at h
  simp only [cString_addrText] at h
  split_ifs at h with hbad
  rw [List.contains_iff_mem] at hbad
  push Not at hbad
  have hip : n.ip.1 = (CStr.print 64 (by decide) ((addrText n).takeWhile (· != 58))).1 := by
    simp only [bind_eq_bind, Option.bind_eq_some_iff] at h
    obtain ⟨_, -, _, -, h⟩ := h
    exact congrArg (fun x => x.1.1) (Option.some.inj h).symm
  have hpart : ∀ c ∈ n.ip.1, c ∈ (addrText n).takeWhile (· != 58) := by
    intro c hc
    rw [hip] at hc
    exact (List.takeWhile_sublist _).mem (List.mem_of_mem_take hc)
  refine ⟨fun hmem => ?_, fun hmem => hbad.2 (hpart 64 hmem)⟩
  have := List.mem_takeWhile_imp (hpart 58 hmem)
  simp at this

/-! ## Flags -/

theorem flags_texts : ∀ k < 256, let s := flagsRender (BitVec.ofNat 32 k)
    s.length < 64 ∧ s ≠ [] ∧ (s.all fun c => c != 0 && c != 32 && c != 10) = true := by
  decide +kernel

/-- Both failure flags come back as the first one alone. -/
theorem flags_reread : ∀ k < 256,
    flagsParse (flagsRender (BitVec.ofNat 32 k)) = BitVec.ofNat 32 k ↔
      ¬ (Flags.has (BitVec.ofNat 32 k) .pfail = true ∧ Flags.has (BitVec.ofNat 32 k) .fail = true) := by
  decide +kernel

theorem flagsParse_flagsRender (hf : f.toNat < 256) :
    flagsParse (flagsRender f) = f ↔ ¬ (f.has .pfail = true ∧ f.has .fail = true) := by
  have h := flags_reread f.toNat hf
  rwa [BitVec.ofNat_toNat] at h

theorem flagsRender_text (hf : f.toNat < 256) :
    (flagsRender f).length < 64 ∧ flagsRender f ≠ [] ∧ Plain (flagsRender f) := by
  have h := flags_texts f.toNat hf
  simpa [Plain, and_assoc] using h

/-! ## Slots -/

theorem mem_rangeText {a b : Nat} (h : c ∈ rangeText a b) : 45 ≤ c ∧ c ≤ 57 := by
  have hdigit : ∀ {n}, c ∈ u64ToStr n → 45 ≤ c ∧ c ≤ 57 := fun hc =>
    ⟨le_trans (by decide) (digits_u64ToStr hc).1, (digits_u64ToStr hc).2⟩
  unfold rangeText at h
  split_ifs at h
  · exact hdigit h
  rcases List.mem_append.mp h with h | h
  · exact hdigit h
  rcases List.mem_cons.mp h with rfl | h
  · decide
  · exact hdigit h

theorem mem_itemsText {rs : List (Nat × Nat)} (h : c ∈ itemsText rs) :
    c = 32 ∨ 45 ≤ c ∧ c ≤ 57 := by
  cases rs with
  | nil => cases h
  | cons r rs =>
    rcases List.mem_append.mp h with h | h
    · exact .inr (mem_rangeText h)
    · obtain ⟨r', -, h⟩ := List.mem_flatMap.mp h
      exact (List.mem_cons.mp h).imp id mem_rangeText

theorem itemsText_head (rs : List (Nat × Nat)) :
    (itemsText rs).dropWhile (· == 32) = itemsText rs := by
  cases rs with
  | nil => rfl
  | cons r rs =>
    obtain ⟨c, cs, hc⟩ := List.exists_cons_of_ne_nil (rangeText_ne_nil r.1 r.2)
    have hne : c ≠ 32 := by
      rintro rfl
      have hmem : 32 ∈ rangeText r.1 r.2 := hc ▸ List.mem_cons_self
      exact absurd (mem_rangeText hmem).1 (by decide)
    rw [itemsText, hc, List.cons_append, List.dropWhile_cons_of_neg (by simpa using hne)]

theorem mem_lineSlots (h : c ∈ lineSlots bm) : c ≠ 0 ∧ c ≠ 10 := by
  obtain ⟨rs, hrs⟩ := lineSlots_items bm
  rw [hrs] at h
  rcases mem_itemsText h with rfl | ⟨hlo, -⟩
  · decide
  · constructor <;> rintro rfl <;> exact absurd hlo (by decide)

theorem cString_lineSlots (bm : Bitmap) : cString (lineSlots bm) = lineSlots bm :=
  List.takeWhile_eq_self_iff.mpr fun _ hc => bne_iff_ne.mpr (mem_lineSlots hc).1

theorem parse_lineSlots_iff (bm : Bitmap) :
    clusterSlotsParse (lineSlots bm) = bm ↔ (slotText bm).length < 256 ∧ EdgeRuns bm := by
  rw [← parse_render_iff bm (by decide), clusterSlotsRender_line, map_some, Option.some_inj]

/-! ## Lines -/

/-- A node with a printable address, known flags and a master link that is an id or `-`. -/
structure ValidNode (n : ClusterNode) : Prop where
  blank : 32 ∉ n.ip.1
  newline : 10 ∉ n.ip.1
  flags : n.flags.toNat < 256
  master : n.masterId = noMaster ∨ IdValid n.masterId.1

def reread (n : ClusterNode) : Option ClusterNode :=
  (parseAddr (addrText n)).map fun a =>
    { freshNode with
      ip := a.1
      port := a.2.1
      busPort := a.2.2
      flags := flagsParse (flagsRender n.flags)
      pingSentMs := n.pingSentMs
      lastSeenMs := n.lastSeenMs
      epoch := n.epoch
      masterId := n.masterId
      slots := clusterSlotsParse (lineSlots n.slots) }

/-- What `nodes.conf` keeps of a node: everything but the failure reports. -/
def saved (n : ClusterNode) : ClusterNode := { n with reports := [], failTimeMs := 0 }

namespace ValidNode

variable {n : ClusterNode} (h : ValidNode n)

include h

theorem plain_addr : Plain (addrText n) := by
  refine Plain.append (fun c hc => ⟨?_, ?_, ?_⟩) (plain_port n)
  · exact fun heq => n.ip.2.2 (heq ▸ hc)
  · exact fun heq => h.blank (heq ▸ hc)
  · exact fun heq => h.newline (heq ▸ hc)

theorem plain_master : Plain n.masterId.1 ∧ n.masterId.1 ≠ [] := by
  rcases h.master with heq | hid
  · rw [heq]
    exact ⟨fun c hc => by rw [List.mem_singleton.mp hc]; decide, by decide⟩
  refine ⟨plain_of_hex hid.2, fun hnil => ?_⟩
  have hlen := hid.1
  rw [hnil] at hlen
  cases hlen

theorem plain_fields : ∀ f ∈ lineFields n, Plain f ∧ f ≠ [] := by
  have hlink : Plain (linkText n) ∧ linkText n ≠ [] := by
    unfold linkText
    split_ifs <;> exact ⟨by unfold Plain; decide +kernel, by decide +kernel⟩
  have hflags := flagsRender_text h.flags
  have hnum : ∀ k, Plain (u64ToStr k) ∧ u64ToStr k ≠ [] := fun k => ⟨plain_digits k, u64ToStr_ne_nil k⟩
  simp only [lineFields, List.forall_mem_cons]
  exact ⟨⟨h.plain_addr, by simp [addrText]⟩, ⟨hflags.2.2, hflags.2.1⟩, h.plain_master, hnum _, hnum _,
    hnum _, hlink, by simp⟩

end ValidNode

theorem addrText_length (n : ClusterNode) : (addrText n).length < 128 := by
  have hdigits : ∀ v : UInt16, (u64ToStr v.toNat).length ≤ 5 := fun v =>
    u64ToStr_length_le (lt_trans v.toNat_lt (by decide))
  have hip := n.ip.2.1
  have hport := hdigits n.port
  have hbus := hdigits n.busPort
  simp only [addrText, length_append, List.length_cons]
  omega

def nodeFields (e : NodeId × ClusterNode) : NodeLine where
  id := e.1.1
  addr := addrText e.2
  flags := flagsRender e.2.flags
  master := e.2.masterId.1
  ping := e.2.pingSentMs
  pong := e.2.lastSeenMs
  epoch := e.2.epoch
  slots := lineSlots e.2.slots

theorem splitLine_nodeLine (h : ValidNode e.2) : splitLine (nodeLine e) = some (nodeFields e) := by
  have hid : e.1.1.length = 40 := e.1.2.1
  have hword : ∀ f ∈ lineFields e.2, IsWord (· == 32) f := fun f hf =>
    (h.plain_fields f hf).1.isWord (h.plain_fields f hf).2
  simp only [lineFields, List.forall_mem_cons] at hword
  obtain ⟨haddr, hflags, hmaster, -, -, -, hlink, -⟩ := hword
  have hblank : ∀ b : Bytes, ∀ c ∈ (32 :: b).head?, (c == 32) = true := fun b c hc => by
    rw [← Option.some.inj hc]
    rfl
  have hslots : (32 :: lineSlots e.2.slots).dropWhile (· == 32) = lineSlots e.2.slots := by
    obtain ⟨rs, hrs⟩ := lineSlots_items e.2.slots
    rw [hrs, List.dropWhile_cons_of_pos (by decide), itemsText_head]
  have hshort : ¬ (nodeLine e).length < 40 := by
    rw [nodeLine, length_append]
    omega
  have htake : (nodeLine e).take 40 = e.1.1 := List.take_left' hid
  have hdrop : (nodeLine e).drop 40
      = 32 :: (addrText e.2 ++ 32 :: (flagsRender e.2.flags ++ 32 :: (e.2.masterId.1 ++
        32 :: (u64ToStr e.2.pingSentMs.toNat ++ 32 :: (u64ToStr e.2.lastSeenMs.toNat ++
        32 :: (u64ToStr e.2.epoch.toNat ++ 32 :: (linkText e.2 ++ 32 :: lineSlots e.2.slots))))))) := by
    rw [nodeLine, List.drop_left' hid]
    simp only [lineFields, List.flatMap_cons, List.flatMap_nil, List.cons_append, append_assoc,
      List.nil_append, lineSlots]
  have haddrLen : ¬ (addrText e.2 = [] ∨ 128 ≤ (addrText e.2).length) := by
    have := addrText_length e.2
    rintro (hnil | hlen)
    · exact haddr.nonempty hnil
    · omega
  have hflagsLen : ¬ (flagsRender e.2.flags = [] ∨ 64 ≤ (flagsRender e.2.flags).length) := by
    have := flagsRender_text h.flags
    rintro (hnil | hlen)
    · exact this.2.1 hnil
    · omega
  have hmasterLen : ¬ 41 ≤ e.2.masterId.1.length := Nat.not_le.mpr e.2.masterId.2.1
  have hslotsLen : ¬ 512 ≤ (lineSlots e.2.slots).length := by
    have := lineSlots_length e.2.slots
    omega
  rw [splitLine]
  simp only [if_neg hshort, hdrop, htake, token_field haddr (hblank _), if_neg haddrLen,
    token_field hflags (hblank _), if_neg hflagsLen, token_field hmaster (hblank _), if_neg hmasterLen,
    u64Field_field _ (hblank _), bind_eq_bind, bind_some, token_field hlink (hblank _),
    hslots, if_neg hslotsLen]
  rfl

theorem parseLine_nodeLine (h : ValidNode e.2)
    (hfresh : e.1 ∉ t.entries.map fst) (hroom : t.entries.length < clusterMaxNodes) :
    (clusterNodesParseLine t (nodeLine e)).map NodeTable.entries
      = (reread e.2).map fun n => t.entries ++ [(e.1, n)] := by
  obtain ⟨t', hadd, hentries⟩ := NodeTable.add_fresh hfresh hroom
  have hid : IdValid (nodeFields e).id := e.1.2
  have hsame : (⟨(nodeFields e).id, hid⟩ : NodeId) = e.1 := rfl
  have hmaster := h.plain_master
  rw [clusterNodesParseLine, splitLine_nodeLine h, reread]
  simp only [bind_eq_bind, bind_some, dif_pos hid, hsame, hadd]
  show ((parseAddr (addrText e.2)).bind _).map NodeTable.entries = _
  cases parseAddr (addrText e.2) with
  | none => rfl
  | some a =>
    simp only [map_some, nodeFields, (flagsRender_text h.flags).2.2.cString,
      hmaster.1.cString, if_neg hmaster.2, print_self, cString_lineSlots]
    exact congrArg some (NodeTable.modify_last hentries _)

/-- Reading lines puts what is read of their nodes behind the others. -/
theorem load_entries (hv : ∀ e ∈ es, ValidNode e.2) (t : NodeTable)
    (hnodup : (t.entries.map fst ++ es.map fst).Nodup)
    (hroom : t.entries.length + es.length ≤ clusterMaxNodes) :
    ((es.map nodeLine).foldl (fun t line => (clusterNodesParseLine t line).getD t) t).entries
      = t.entries ++ es.filterMap fun e => (reread e.2).map fun n => (e.1, n) := by
  induction es generalizing t with
  | nil => rw [List.filterMap_nil, List.append_nil]; rfl
  | cons e es ih =>
    rw [List.length_cons] at hroom
    have hfresh : e.1 ∉ t.entries.map fst := fun hmem =>
      (List.nodup_append.mp hnodup).2.2 e.1 hmem e.1 (by simp) rfl
    have hline := parseLine_nodeLine (hv e List.mem_cons_self) hfresh (by omega)
    have hrest : ∀ x ∈ es, ValidNode x.2 := fun x hx => hv x (List.mem_cons_of_mem e hx)
    rw [List.map_cons, List.foldl_cons, List.filterMap_cons]
    cases hread : reread e.2 with
    | none =>
      rw [hread, Option.map_none, Option.map_eq_none_iff] at hline
      rw [hline]
      refine ih hrest t (hnodup.sublist ?_) (by omega)
      exact (List.Sublist.refl _).append (List.sublist_cons_self _ _)
    | some n =>
      rw [hread] at hline
      obtain ⟨t', ht', hentries⟩ := Option.map_eq_some_iff.mp hline
      rw [ht', Option.getD_some, ih hrest t' ?_ ?_, hentries, append_assoc]
      · rfl
      · rw [hentries, List.map_append, append_assoc]
        exact hnodup
      · rw [hentries, length_append, List.length_singleton]
        omega

theorem isWord_nodeLine (h : ValidNode e.2) : IsWord (· == 10) (nodeLine e) := by
  refine ⟨fun hnil => ?_, fun c hc => beq_eq_false_iff_ne.mpr ?_⟩
  · have hlen := congrArg List.length (List.append_eq_nil_iff.mp hnil).1
    rw [e.1.2.1] at hlen
    cases hlen
  rcases List.mem_append.mp hc with hc | hc
  · exact (plain_of_hex e.1.2.2 c hc).2.2
  rcases List.mem_append.mp hc with hc | hc
  · obtain ⟨f, hf, hc⟩ := List.mem_flatMap.mp hc
    rcases List.mem_cons.mp hc with rfl | hc
    · decide
    · exact ((h.plain_fields f hf).1 c hc).2.2
  · rcases List.mem_cons.mp hc with rfl | hc
    · decide
    · exact (mem_lineSlots hc).2

/-- The text of the nodes of a table is read as what is read of each. -/
theorem load_lines (hv : ∀ e ∈ t.entries, ValidNode e.2) :
    (clusterNodesLoad (t.entries.flatMap fun e => nodeLine e ++ [10])).entries
      = t.entries.filterMap fun e => (reread e.2).map fun n => (e.1, n) := by
  have hlines : words (· == 10) (t.entries.flatMap fun e => nodeLine e ++ [10])
      = t.entries.map nodeLine := by
    have hword : ∀ l ∈ t.entries.map nodeLine, IsWord (· == 10) l := by
      intro l hl
      obtain ⟨e, he, rfl⟩ := List.mem_map.mp hl
      exact isWord_nodeLine (hv e he)
    have hsplit : words (· == 10) ((t.entries.map nodeLine).flatMap fun l => l ++ [10])
        = t.entries.map nodeLine := words_lines (by decide) hword
    rwa [List.flatMap_map] at hsplit
  rw [clusterNodesLoad, hlines]
  exact load_entries hv ⟨[], List.nodup_nil, Nat.zero_le _⟩ t.distinct (by simpa using t.bounded)

/-! ## Rendering -/

/-- Every line is shorter than the room there is for it; the lines' lengths include the newline. -/
def LinesFit : Nat → Nat → List Nat → Prop
  | _, _, [] => True
  | cap, len, n :: ns =>
    n < respBufReserve cap len 512 - len ∧ LinesFit (respBufReserve cap len 512) (len + n) ns

theorem nodesRenderLoop_eq_some {out text : Bytes} :
    nodesRenderLoop cap out es = some text ↔
      LinesFit cap out.length (es.map fun e => (nodeLine e ++ [10]).length) ∧
        text = out ++ es.flatMap fun e => nodeLine e ++ [10] := by
  induction es generalizing cap out with
  | nil => simp [nodesRenderLoop, LinesFit, eq_comm]
  | cons e es ih =>
    rw [nodesRenderLoop]
    by_cases hfull : respBufReserve cap out.length 512 - out.length ≤ (nodeLine e ++ [10]).length
    · rw [if_pos hfull]
      exact ⟨fun h => (by cases h), fun h => absurd h.1.1 (Nat.not_lt.mpr hfull)⟩
    · rw [if_neg hfull, ih, length_append, append_assoc]
      exact ⟨fun h => ⟨⟨Nat.lt_of_not_le hfull, h.1⟩, h.2⟩, fun h => ⟨h.1.2, h.2⟩⟩

def lineLength (e : NodeId × ClusterNode) : Nat :=
  40 + ((lineFields e.2).map fun f => f.length + 1).sum + 1 + (slotText e.2.slots).length + 1

theorem nodeLine_length (h : (slotText e.2.slots).length < 256) :
    (nodeLine e ++ [10]).length = lineLength e := by
  have hslots : (clusterSlotsRender e.2.slots 256).getD [] = slotText e.2.slots := by
    rw [clusterSlotsRender_of_fits h, Option.getD_some]
  have hid : e.1.1.length = 40 := e.1.2.1
  have hfields : ((lineFields e.2).flatMap (32 :: ·)).length
      = ((lineFields e.2).map fun f => f.length + 1).sum := List.length_flatMap
  rw [nodeLine, hslots, lineLength]
  simp only [length_append, List.length_cons, List.length_nil]
  omega

/-! ## The round trip -/

def RoundTrips (t : NodeTable) : Prop :=
  ∃ text, clusterNodesRender t = some text ∧
    (clusterNodesLoad text).entries = t.entries.map fun e => (e.1, saved e.2)

/-- What a node's line can hold: slots that fit and whose ranges are read back, at most one of the
    failure flags, and an address without the marks that end it. -/
structure Storable (n : ClusterNode) : Prop where
  fits : (slotText n.slots).length < 256
  edges : EdgeRuns n.slots
  oneFailure : ¬ (n.flags.has .pfail = true ∧ n.flags.has .fail = true)
  address : PlainIp n

theorem reread_eq_saved_iff {n : ClusterNode} (h : ValidNode n) :
    reread n = some (saved n) ↔ Storable n := by
  constructor
  · intro hread
    obtain ⟨⟨ip, port, busPort⟩, ha, hn⟩ := Option.map_eq_some_iff.mp hread
    have hip : ip = n.ip := congrArg ClusterNode.ip hn
    have hflags : flagsParse (flagsRender n.flags) = n.flags := congrArg ClusterNode.flags hn
    have hslots : clusterSlotsParse (lineSlots n.slots) = n.slots := congrArg ClusterNode.slots hn
    subst hip
    exact ⟨((parse_lineSlots_iff _).mp hslots).1, ((parse_lineSlots_iff _).mp hslots).2,
      (flagsParse_flagsRender h.flags).mp hflags, plainIp_of_parseAddr ha⟩
  · rintro ⟨hfits, hedges, hflags, hip⟩
    rw [reread, parseAddr_addrText hip, (flagsParse_flagsRender h.flags).mpr hflags,
      (parse_lineSlots_iff _).mpr ⟨hfits, hedges⟩]
    rfl

theorem roundTrips_iff_storable (hv : ∀ e ∈ t.entries, ValidNode e.2) :
    RoundTrips t ↔ LinesFit 0 0 (t.entries.map fun e => (nodeLine e ++ [10]).length) ∧
      ∀ e ∈ t.entries, Storable e.2 := by
  have hstored : (clusterNodesLoad (t.entries.flatMap fun e => nodeLine e ++ [10])).entries
      = t.entries.map (fun e => (e.1, saved e.2)) ↔ ∀ e ∈ t.entries, Storable e.2 := by
    rw [load_lines hv, List.filterMap_eq_map_iff_forall_eq_some]
    refine forall₂_congr fun e he => ?_
    rw [← reread_eq_saved_iff (hv e he), Option.map_eq_some_iff]
    constructor
    · rintro ⟨n, hn, heq⟩
      rw [hn]
      exact congrArg some (Prod.ext_iff.mp heq).2
    · exact fun h => ⟨_, h, rfl⟩
  rw [← hstored]
  constructor
  · rintro ⟨text, hrender, hload⟩
    obtain ⟨hfit, rfl⟩ := nodesRenderLoop_eq_some.mp hrender
    exact ⟨hfit, hload⟩
  · rintro ⟨hfit, hload⟩
    exact ⟨_, nodesRenderLoop_eq_some.mpr ⟨hfit, rfl⟩, hload⟩

def soleNode (n : ClusterNode) : NodeTable where
  entries := [(NodeId.ofDigit 97 hex97, n)]
  distinct := List.nodup_singleton _
  bounded := Nat.one_le_iff_ne_zero.mpr (by decide)

theorem validNode_own (bm : Bitmap) : ValidNode { ownNode with slots := bm } :=
  ⟨by simp [ownNode, freshNode], by simp [ownNode, freshNode],
    (by decide : ownNode.flags.toNat < 256), .inl rfl⟩

theorem linesFit_own (h : slotText bm = []) :
    LinesFit 0 0 ((soleNode { ownNode with slots := bm }).entries.map lineLength) := by
  have hfields : lineFields { ownNode with slots := bm } = lineFields ownNode := rfl
  refine ⟨?_, trivial⟩
  rw [lineLength, h, hfields]
  decide +kernel

end Ddup.Cluster
