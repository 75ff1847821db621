/-
Ddup.Lib.Unique — lists whose items have distinct names.

A `Unique f` is a list on which `f` is injective: what a table with keys holds, in
the order it lists it. `push` adds an item with a new name and refuses any other,
`put` replaces the item of that name if there is one. Building such a list from
its own items gives it back, whichever of the two is used.
-/
import Mathlib.Tactic

namespace Ddup.Lib

variable {α β : Type} {f : α → β}

/-- A list of items with distinct names. -/
structure Unique (f : α → β) where
  items : List α
  nodup : (items.map f).Nodup

namespace Unique

variable {a old : α} {u : Unique f} {n : β} {w : α → Nat}

instance [DecidableEq α] : DecidableEq (Unique f) := fun a b =>
  decidable_of_iff (a.items = b.items) ⟨fun h => by cases a; cases b; cases h; rfl, fun h => h ▸ rfl⟩

theorem ext {a b : Unique f} (h : a.items = b.items) : a = b := by
  cases a
  cases b
  cases h
  rfl

def empty (f : α → β) : Unique f := ⟨[], List.nodup_nil⟩

theorem nodup_snoc {l : List α} (hl : (l.map f).Nodup) (ha : f a ∉ l.map f) :
    ((l ++ [a]).map f).Nodup := by
  rw [List.map_append, List.nodup_append]
  refine ⟨hl, List.nodup_singleton _, ?_⟩
  intro x hx y hy hxy
  rw [List.map_singleton, List.mem_singleton] at hy
  exact ha (hy ▸ hxy ▸ hx)

theorem new_of_split {l pre post : List α} (hl : (l.map f).Nodup) (h : l = pre ++ a :: post)
    : f a ∉ pre.map f := by
  rw [h, List.map_append, List.nodup_append] at hl
  intro hmem
  exact hl.2.2 (f a) hmem (f a) (by simp) rfl

variable [DecidableEq β]

def push (u : Unique f) (a : α) : Option (Unique f) :=
  if h : f a ∈ u.items.map f then none else some ⟨u.items ++ [a], nodup_snoc u.nodup h⟩

def replaceItem (f : α → β) (a : α) (l : List α) : List α :=
  l.map fun x => if f x = f a then a else x

theorem map_replaceItem (a : α) (l : List α) : (replaceItem f a l).map f = l.map f := by
  rw [replaceItem, List.map_map]
  refine List.map_congr_left fun x _ => ?_
  by_cases hx : f x = f a
  · simp [hx]
  · simp [hx]

def put (u : Unique f) (a : α) : Unique f :=
  if h : f a ∈ u.items.map f then
    ⟨replaceItem f a u.items, by rw [map_replaceItem]; exact u.nodup⟩
  else ⟨u.items ++ [a], nodup_snoc u.nodup h⟩

theorem put_of_new (h : f a ∉ u.items.map f) : (u.put a).items = u.items ++ [a] := by
  rw [put, dif_neg h]

theorem mem_put {x : α} (h : x ∈ (u.put a).items) : x = a ∨ x ∈ u.items := by
  unfold put at h
  split at h
  · obtain ⟨y, hy, hx⟩ := List.mem_map.mp h
    split at hx
    · exact .inl hx.symm
    · exact .inr (hx ▸ hy)
  · rcases List.mem_append.mp h with h | h
    · exact .inr h
    · exact .inl (List.mem_singleton.mp h)

theorem put_length_of_old (h : f a ∈ u.items.map f) : (u.put a).items.length = u.items.length := by
  rw [put, dif_pos h]
  simp [replaceItem]

theorem put_length_le (u : Unique f) (a : α) : (u.put a).items.length ≤ u.items.length + 1 := by
  by_cases h : f a ∈ u.items.map f
  · rw [put_length_of_old h]
    exact Nat.le_succ _
  · rw [put_of_new h, List.length_append]
    exact Nat.le_refl _

theorem push_of_new (h : f a ∉ u.items.map f) : ∃ v, u.push a = some v ∧ v.items = u.items ++ [a] :=
  ⟨_, dif_neg h, rfl⟩

theorem foldl_put_items : ∀ (l : List α) (u : Unique f), ((u.items ++ l).map f).Nodup →
    (l.foldl put u).items = u.items ++ l
  | [], u, _ => by simp
  | a :: l, u, h => by
    have hnew : f a ∉ u.items.map f := new_of_split h rfl
    have hput := put_of_new hnew
    rw [List.foldl_cons, foldl_put_items l (u.put a) (by rw [hput]; simpa using h), hput]
    simp

theorem foldl_put (u : Unique f) : u.items.foldl put (empty f) = u :=
  ext (foldl_put_items u.items (empty f) u.nodup)

theorem foldl_put_length_le : ∀ (l : List α) (u : Unique f),
    (l.foldl put u).items.length ≤ u.items.length + l.length
  | [], _ => Nat.le_refl _
  | a :: l, u => by
    have ih := foldl_put_length_le l (u.put a)
    have hput := put_length_le u a
    rw [List.foldl_cons, List.length_cons]
    omega

theorem foldlM_push_items : ∀ (l : List α) (u : Unique f), ((u.items ++ l).map f).Nodup →
    ∃ v, l.foldlM push u = some v ∧ v.items = u.items ++ l
  | [], u, _ => ⟨u, rfl, (List.append_nil _).symm⟩
  | a :: l, u, h => by
    obtain ⟨u', hpush, hu'⟩ := push_of_new (new_of_split h rfl)
    obtain ⟨v, hv, hitems⟩ := foldlM_push_items l u' (by rw [hu']; simpa using h)
    refine ⟨v, ?_, by rw [hitems, hu']; simp⟩
    rw [List.foldlM_cons, hpush]
    exact hv

theorem foldlM_push (u : Unique f) : u.items.foldlM push (empty f) = some u := by
  obtain ⟨v, hv, hitems⟩ := foldlM_push_items u.items (empty f) u.nodup
  have heq : v = u := ext hitems
  rw [hv, heq]

/-! ## Looking up and removing -/

def get? (u : Unique f) (n : β) : Option α := u.items.find? fun x => f x = n

def erase (u : Unique f) (n : β) : Unique f :=
  ⟨u.items.filter fun x => f x ≠ n, (List.filter_sublist.map f).nodup u.nodup⟩

theorem get?_eq_some : u.get? n = some a ↔ a ∈ u.items ∧ f a = n := by
  constructor
  · intro h
    exact ⟨List.mem_of_find?_eq_some h, by simpa using List.find?_some h⟩
  rintro ⟨hmem, rfl⟩
  cases hget : u.get? (f a) with
  | none =>
    have hno := List.find?_eq_none.mp hget a hmem
    simp at hno
  | some b =>
    have hb : b ∈ u.items := List.mem_of_find?_eq_some hget
    have hname : f b = f a := by simpa using List.find?_some hget
    exact congrArg some (List.inj_on_of_nodup_map u.nodup hb hmem hname)

theorem get?_eq_none : u.get? n = none ↔ n ∉ u.items.map f := by
  rw [get?]
  simp

theorem get?_put_self (u : Unique f) (a : α) : (u.put a).get? (f a) = some a := by
  rw [get?_eq_some]
  refine ⟨?_, rfl⟩
  unfold put
  split
  · rename_i hmem
    obtain ⟨x, hx, hname⟩ := List.mem_map.mp hmem
    exact List.mem_map.mpr ⟨x, hx, if_pos hname⟩
  · simp

theorem mem_put_of_ne {x : α} (hne : f x ≠ f a) : x ∈ (u.put a).items ↔ x ∈ u.items := by
  have ha : x ≠ a := fun heq => hne (congrArg f heq)
  unfold put
  split
  · constructor
    · intro h
      obtain ⟨y, hy, hx⟩ := List.mem_map.mp h
      split at hx
      · exact absurd hx.symm ha
      · exact hx ▸ hy
    · exact fun h => List.mem_map.mpr ⟨x, h, if_neg hne⟩
  · simp [ha]

theorem get?_put_ne (hne : n ≠ f a) : (u.put a).get? n = u.get? n := by
  apply Option.ext
  intro x
  rw [get?_eq_some, get?_eq_some]
  constructor
  · rintro ⟨hx, rfl⟩
    exact ⟨(mem_put_of_ne hne).mp hx, rfl⟩
  · rintro ⟨hx, rfl⟩
    exact ⟨(mem_put_of_ne hne).mpr hx, rfl⟩

theorem get?_erase_self (u : Unique f) (n : β) : (u.erase n).get? n = none := by
  rw [get?_eq_none]
  simp [erase]

theorem get?_erase_ne {m : β} (hne : m ≠ n) : (u.erase n).get? m = u.get? m := by
  apply Option.ext
  intro x
  rw [get?_eq_some, get?_eq_some]
  constructor
  · rintro ⟨hx, rfl⟩
    exact ⟨List.mem_of_mem_filter hx, rfl⟩
  · rintro ⟨hx, rfl⟩
    exact ⟨List.mem_filter.mpr ⟨hx, by simpa using hne⟩, rfl⟩

/-! ## Sums over the items -/

def total (w : α → Nat) (u : Unique f) : Nat := (u.items.map w).sum

theorem total_put_of_new (h : u.get? (f a) = none) : (u.put a).total w = u.total w + w a := by
  rw [total, put_of_new (get?_eq_none.mp h), List.map_append]
  simp [total]

theorem sum_split {w : α → Nat} {n : β} {old : α} : ∀ {l : List α}, (l.map f).Nodup → old ∈ l →
    f old = n → (l.map w).sum = w old + ((l.filter fun x => f x ≠ n).map w).sum
  | x :: l, hnodup, hmem, hname => by
    obtain ⟨hx, hl⟩ := List.nodup_cons.mp hnodup
    by_cases hxn : f x = n
    · have hold : old = x := by
        rcases List.mem_cons.mp hmem with rfl | hmem
        · rfl
        · exact absurd (hxn.trans hname.symm ▸ List.mem_map_of_mem hmem) hx
      have hrest : l.filter (fun x => f x ≠ n) = l := by
        refine List.filter_eq_self.mpr fun y hy => ?_
        have hne : f y ≠ n := fun hyn => hx (hxn ▸ hyn ▸ List.mem_map_of_mem hy)
        simpa using hne
      rw [List.filter_cons_of_neg (by simpa using hxn), hrest, hold]
      simp
    · have hold : old ∈ l := by
        rcases List.mem_cons.mp hmem with rfl | hmem
        · exact absurd hname hxn
        · exact hmem
      rw [List.filter_cons_of_pos (by simpa using hxn), List.map_cons, List.map_cons,
        List.sum_cons, List.sum_cons, sum_split hl hold hname]
      omega

theorem total_erase (h : u.get? n = some old) : u.total w = w old + (u.erase n).total w := by
  obtain ⟨hmem, hname⟩ := get?_eq_some.mp h
  exact sum_split u.nodup hmem hname

theorem length_erase (h : u.get? n = some old) : u.items.length = (u.erase n).items.length + 1 := by
  have hsum := total_erase (w := fun _ => 1) h
  simp only [total, List.map_const', List.sum_replicate, smul_eq_mul] at hsum
  omega

theorem filter_replaceItem (a : α) : ∀ l : List α,
    (replaceItem f a l).filter (fun x => f x ≠ f a) = l.filter fun x => f x ≠ f a
  | [] => rfl
  | x :: l => by
    have ih := filter_replaceItem a l
    by_cases hx : f x = f a
    · rw [replaceItem, List.map_cons, if_pos hx, List.filter_cons_of_neg (by simp),
        List.filter_cons_of_neg (by simpa using hx)]
      exact ih
    · rw [replaceItem, List.map_cons, if_neg hx, List.filter_cons_of_pos (by simpa using hx),
        List.filter_cons_of_pos (by simpa using hx)]
      exact congrArg _ ih

theorem total_put_of_old (h : u.get? (f a) = some old) :
    (u.put a).total w + w old = u.total w + w a := by
  obtain ⟨hmem, hname⟩ := get?_eq_some.mp h
  have hput : (u.put a).items = replaceItem f a u.items := by
    rw [put, dif_pos (hname ▸ List.mem_map_of_mem hmem)]
  have hsame : ((u.put a).erase (f a)).total w = (u.erase (f a)).total w := by
    show (((u.put a).items.filter _).map w).sum = _
    rw [hput, filter_replaceItem]
    rfl
  have hnew := total_erase (w := w) (get?_put_self u a)
  have hold := total_erase (w := w) h
  omega

end Unique

end Ddup.Lib
