/-
Ddup.Lib.Wire — little-endian integers and decoders over byte strings.

A decoder takes what it needs off the front of its input and hands the rest on, or
fails. `Reads d bs a` says that `d` reads exactly the bytes `bs`, whatever follows
them, and yields `a`. The rules compose it along the structure of a decoder, so a
round trip is proved by following the encoder.
-/
import Mathlib.Tactic

namespace Ddup.Lib

/-! ## Integers -/

def leBytes : Nat → Nat → List UInt8
  | 0, _ => []
  | w + 1, n => UInt8.ofNat n :: leBytes w (n / 256)

def leNat : List UInt8 → Nat
  | [] => 0
  | b :: bs => b.toNat + 256 * leNat bs

@[simp] theorem leBytes_length (w n : Nat) : (leBytes w n).length = w := by
  induction w generalizing n with
  | zero => rfl
  | succ w ih => simp [leBytes, ih]

theorem leNat_leBytes (w n : Nat) : leNat (leBytes w n) = n % 256 ^ w := by
  induction w generalizing n with
  | zero => simp [leBytes, leNat, Nat.mod_one]
  | succ w ih =>
    simp only [leBytes, leNat, ih]
    rw [Nat.pow_succ, Nat.mul_comm _ 256, Nat.mod_mul]
    simp

theorem leNat_leBytes_of_lt {w n : Nat} (h : n < 256 ^ w) : leNat (leBytes w n) = n := by
  rw [leNat_leBytes, Nat.mod_eq_of_lt h]

/-! ## Decoders -/

def Dec (α : Type) := List UInt8 → Option (α × List UInt8)

namespace Dec

variable {α β σ : Type}

protected def pure (a : α) : Dec α := fun bs => some (a, bs)

protected def bind (d : Dec α) (f : α → Dec β) : Dec β := fun bs =>
  match d bs with
  | none => none
  | some (a, rest) => f a rest

instance : Monad Dec where
  pure := Dec.pure
  bind := Dec.bind

def fail : Dec α := fun _ => none

def bytes (n : Nat) : Dec (List UInt8) := fun bs =>
  if n ≤ bs.length then some (bs.take n, bs.drop n) else none

def le (w : Nat) : Dec Nat := fun bs =>
  match bytes w bs with
  | none => none
  | some (b, rest) => some (leNat b, rest)

def ofOption (x : Option α) : Dec α := fun bs => x.map fun a => (a, bs)

def loop (step : σ → Dec σ) : Nat → σ → Dec σ
  | 0, s => Dec.pure s
  | n + 1, s => Dec.bind (step s) (loop step n)

def gather (d : Dec α) (n : Nat) : Dec (List α) :=
  loop (fun l => d >>= fun x => Pure.pure (l ++ [x])) n []

theorem bind_eq_some {d : Dec α} {f : α → Dec β} {bs rest : List UInt8} {b : β} :
    (d >>= f) bs = some (b, rest) ↔
      ∃ a bs', d bs = some (a, bs') ∧ f a bs' = some (b, rest) := by
  change Dec.bind d f bs = _ ↔ _
  unfold Dec.bind
  cases d bs with
  | none => simp
  | some x =>
    obtain ⟨a, bs'⟩ := x
    simp

end Dec

/-! ## Reading exactly -/

variable {α β σ ι : Type}

/-- On any input that starts with `bs`, `d` takes these bytes off and yields what
`o` holds; it fails if `o` is empty. -/
def Yields (d : Dec α) (bs : List UInt8) (o : Option α) : Prop :=
  ∀ rest, d (bs ++ rest) = o.map fun a => (a, rest)

/-- `d` reads exactly `bs` and yields `a`. -/
def Reads (d : Dec α) (bs : List UInt8) (a : α) : Prop := Yields d bs (some a)

namespace Yields

variable {d : Dec α} {bs : List UInt8} {o : Option α}

theorem bind {f : α → Dec β} {bs' : List UInt8} {g : α → Option β} (h : Yields d bs o)
    (h' : ∀ a, o = some a → Yields (f a) bs' (g a)) : Yields (d >>= f) (bs ++ bs') (o.bind g) := by
  intro rest
  have hd := h (bs' ++ rest)
  change Dec.bind d f _ = _
  rw [List.append_assoc, Dec.bind, hd]
  cases o with
  | none => rfl
  | some a => exact h' a rfl rest

theorem bind_nil {f : α → Dec β} {g : α → Option β} (h : Yields d bs o)
    (h' : ∀ a, o = some a → Yields (f a) [] (g a)) : Yields (d >>= f) bs (o.bind g) :=
  List.append_nil bs ▸ h.bind h'

theorem map (h : Yields d bs o) (f : α → β) :
    Yields (d >>= fun a => Pure.pure (f a)) bs (o.map f) := by
  have hpure : ∀ a, Yields (Pure.pure (f a) : Dec β) [] (some (f a)) := fun _ _ => rfl
  rw [Option.map_eq_bind]
  exact h.bind_nil fun a _ => hpure a

theorem fail : Yields (Dec.fail : Dec α) [] none := fun _ => rfl

theorem ofOption (x : Option α) : Yields (Dec.ofOption x) [] x := fun _ => rfl

/-- A loop over the encodings of a list: each round reads one of them, and the
state goes through what the rounds make of it. -/
theorem loop {step : σ → Dec σ} (enc : ι → List UInt8) (next : σ → ι → Option σ) :
    ∀ (xs : List ι) (s : σ), (∀ x ∈ xs, ∀ s', Yields (step s') (enc x) (next s' x)) →
      Yields (Dec.loop step xs.length s) (xs.flatMap enc) (xs.foldlM next s)
  | [], _, _ => fun _ => rfl
  | x :: xs, s, h => by
    exact (h x (List.mem_cons_self ..) s).bind fun s' _ =>
      loop enc next xs s' fun y hy => h y (List.mem_cons_of_mem _ hy)

end Yields

namespace Reads

variable {a : α} {d : Dec α} {f : α → Dec β} {bs : List UInt8}

theorem pure (a : α) : Reads (Pure.pure a : Dec α) [] a := fun _ => rfl

theorem bind {bs' : List UInt8} {b : β} (h : Reads d bs a) (h' : Reads (f a) bs' b)
    : Reads (d >>= f) (bs ++ bs') b :=
  Yields.bind (g := fun _ => some b) h fun a' ha => by cases ha; exact h'

theorem bind_nil {b : β} (h : Reads d bs a) (h' : Reads (f a) [] b) : Reads (d >>= f) bs b :=
  List.append_nil bs ▸ h.bind h'

theorem yields {bs' : List UInt8} {o : Option β} (h : Reads d bs a) (h' : Yields (f a) bs' o)
    : Yields (d >>= f) (bs ++ bs') o :=
  Yields.bind (g := fun _ => o) h fun a' ha => by cases ha; exact h'

theorem yields_nil {o : Option β} (h : Reads d bs a) (h' : Yields (f a) [] o)
    : Yields (d >>= f) bs o :=
  List.append_nil bs ▸ h.yields h'

theorem gather {enc : ι → List UInt8} {f : ι → α} {xs : List ι}
    (h : ∀ x ∈ xs, Reads d (enc x) (f x)) :
    Reads (Dec.gather d xs.length) (xs.flatMap enc) (xs.map f) := by
  have hstep : ∀ x ∈ xs, ∀ l, Reads (d >>= fun a => Pure.pure (l ++ [a])) (enc x) (l ++ [f x]) :=
    fun x hx l => (h x hx).bind_nil (pure (l ++ [f x]))
  have hloop := Yields.loop enc (fun l x => some (l ++ [f x])) xs [] hstep
  have hfold : ∀ (xs : List ι) (l : List α),
      xs.foldlM (fun l x => some (l ++ [f x])) l = some (l ++ xs.map f) := by
    intro xs
    induction xs with
    | nil => intro l; simp
    | cons x xs ih => intro l; simp [ih]
  rw [hfold] at hloop
  exact hloop

theorem bytes (bs : List UInt8) : Reads (Dec.bytes bs.length) bs bs := by
  intro rest
  simp [Dec.bytes]

theorem le {w n : Nat} (h : n < 256 ^ w) : Reads (Dec.le w) (leBytes w n) n := by
  intro rest
  have hb := bytes (leBytes w n) rest
  rw [leBytes_length] at hb
  simp only [Dec.le, hb, Option.map_some, leNat_leBytes_of_lt h]

end Reads

end Ddup.Lib
