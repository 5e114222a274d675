import Mathlib.Data.List.Basic
import Mathlib.Tactic.Ring

/-!
# The Python runtime fragment used by btclib

btclib is written against a handful of Python built-ins whose behaviour the
modules below depend on exactly: `bytes` values and their slicing,
`int.from_bytes` / `int.to_bytes` (which raises `OverflowError` when the value
does not fit), `list.index` (which raises `ValueError`), `bytes[i]` (which
raises `IndexError`), `str.strip` and a `BytesIO` stream whose `read(n)`
silently returns fewer bytes at the end of the input.

A call that can raise is modelled in `Except PyExc`; the exception class is a
constructor of `PyExc`, so that statements can speak about which class is
raised.

**Results.**
* `fromBytesBE_toBytesBE`, `toBytesBE_fromBytesBE`: the big-endian codec is a
  bijection between `w`-byte strings and naturals below `256 ^ w`.
* `intToBytes_eq_ok_iff`: `int.to_bytes` succeeds exactly on non-negative
  values that fit.
* `ResultRel.foldlM`: two `Except` loops whose bodies are related step by step
  are related as a whole.
-/

namespace Btclib

/-- One element of a Python `bytes` value. -/
abbrev Byte := Fin 256

/-- A Python `bytes` value. -/
abbrev Bytes := List Byte

/-- The exception classes raised along the modelled code paths. -/
inductive PyExc where
  | btclibValueError (msg : String)
  | btclibTypeError (msg : String)
  | valueError (msg : String)
  | overflowError (msg : String)
  | indexError (msg : String)
  | attributeError (msg : String)
  | userWarning (msg : String)
  | assertionError (msg : String)
deriving DecidableEq, Repr

/-- Equality of call results is decidable. -/
instance instDecidableEqExcept {ε α : Type} [DecidableEq ε] [DecidableEq α] :
    DecidableEq (Except ε α)
  | .error e, .error e' =>
      if h : e = e' then isTrue (h ▸ rfl) else isFalse fun h' => h (by injection h')
  | .ok a, .ok b => if h : a = b then isTrue (h ▸ rfl) else isFalse fun h' => h (by injection h')
  | .error _, .ok _ => isFalse fun h => by cases h
  | .ok _, .error _ => isFalse fun h => by cases h

/-- The call raises some exception. -/
def Raises {α : Type} (x : Except PyExc α) : Prop :=
  ∃ e, x = .error e

@[simp] theorem raises_ok {α : Type} (a : α) : ¬ Raises (.ok a : Except PyExc α) := by
  rintro ⟨e, ⟨⟩⟩

@[simp] theorem raises_error {α : Type} (e : PyExc) : Raises (.error e : Except PyExc α) :=
  ⟨e, rfl⟩

theorem raises_iff_toBool {α : Type} (x : Except PyExc α) : Raises x ↔ x.toBool = false := by
  cases x <;> simp [Except.toBool]

@[simp] theorem pure_eq_ok {ε α : Type} (a : α) : (pure a : Except ε α) = .ok a :=
  rfl

@[simp] theorem throw_eq_error {ε α : Type} (e : ε) : (throw e : Except ε α) = .error e :=
  rfl

@[simp] theorem ok_bind {ε α β : Type} (a : α) (f : α → Except ε β) :
    (Except.ok a >>= f) = f a :=
  rfl

@[simp] theorem error_bind {ε α β : Type} (e : ε) (f : α → Except ε β) :
    (Except.error e >>= f) = Except.error e :=
  rfl

@[simp] theorem bind_ok {ε α : Type} (x : Except ε α) : (x >>= Except.ok) = x := by
  cases x <;> rfl

theorem bind_eq_ok {ε α β : Type} {x : Except ε α} {f : α → Except ε β} {b : β} :
    (x >>= f) = .ok b ↔ ∃ a, x = .ok a ∧ f a = .ok b := by
  cases x <;> simp

@[simp] theorem bind_unit_eq_ok {ε β : Type} {x : Except ε Unit} {f : Unit → Except ε β} {b : β} :
    (x >>= f) = .ok b ↔ x = .ok () ∧ f () = .ok b := by
  cases x <;> simp

/-- An `Except` step of a computation that may also not return. -/
@[simp] theorem liftM_ok_bind {α β : Type} (a : α) (f : α → ExceptT PyExc Option β) :
    ((liftM (Except.ok a : Except PyExc α) : ExceptT PyExc Option α) >>= f) = f a :=
  rfl

@[simp] theorem liftM_pure_bind {α β : Type} (a : α) (f : α → ExceptT PyExc Option β) :
    ((liftM (pure a : Except PyExc α) : ExceptT PyExc Option α) >>= f) = f a :=
  rfl

@[simp] theorem liftM_error_bind {α β : Type} (e : PyExc) (f : α → ExceptT PyExc Option β) :
    ((liftM (Except.error e : Except PyExc α) : ExceptT PyExc Option α) >>= f) = throw e :=
  rfl

/-- A computation that returns after a bind had a first step that returned. -/
theorem bind_run_eq_ok {α β : Type} {x : ExceptT PyExc Option α} {f : α → ExceptT PyExc Option β}
    {b : β} (h : (x >>= f).run = some (.ok b)) :
    ∃ a, x.run = some (.ok a) ∧ (f a).run = some (.ok b) := by
  rw [ExceptT.run_bind] at h
  rcases hx : x.run with _ | _ | a <;> rw [hx] at h
  · cases h
  · cases h
  · exact ⟨a, rfl, h⟩

theorem forM_eq_ok_iff {ε α : Type} {f : α → Except ε Unit} :
    ∀ {l : List α}, l.forM f = .ok () ↔ ∀ a ∈ l, f a = .ok ()
  | [] => by simp
  | a :: l => by simp [forM_eq_ok_iff]

/-- A loop of checks that raises does so at its first failing entry, after the
entries before it passed. -/
theorem forM_eq_error {ε α : Type} {f : α → Except ε Unit} {e : ε} :
    ∀ {l : List α}, l.forM f = .error e →
      ∃ pre a post, l = pre ++ a :: post ∧ (∀ b ∈ pre, f b = .ok ()) ∧ f a = .error e
  | [], h => by cases h
  | a :: l, h => by
      change (f a >>= fun _ => l.forM f) = .error e at h
      rcases ha : f a with e' | ⟨⟩ <;> rw [ha] at h
      · cases h
        exact ⟨[], a, l, rfl, nofun, ha⟩
      · obtain ⟨pre, b, post, rfl, hpre, hb⟩ := forM_eq_error h
        refine ⟨a :: pre, b, post, rfl, ?_, hb⟩
        simpa [ha] using hpre

theorem raises_bind {α β : Type} {x : Except PyExc α} {f : α → Except PyExc β} :
    Raises (x >>= f) ↔ Raises x ∨ ∃ a, x = .ok a ∧ Raises (f a) := by
  cases x <;> simp

theorem raises_bind_of_forall {α β : Type} {x : Except PyExc α} {f : α → Except PyExc β}
    (h : ∀ a, Raises (f a)) : Raises (x >>= f) := by
  cases x <;> simp [h]

/-- `if not c: raise BTClibValueError(msg)`. -/
def require (c : Prop) [Decidable c] (msg : String) : Except PyExc Unit :=
  if c then .ok () else .error (.btclibValueError msg)

@[simp] theorem require_bind {β : Type} {c : Prop} [Decidable c] {msg : String}
    {f : Unit → Except PyExc β} :
    (require c msg >>= f) = if c then f () else .error (.btclibValueError msg) := by
  unfold require
  split_ifs <;> rfl

/-- A statement guarded by an `if` with no `else` passes when the guarded part does. -/
theorem ite_pure_eq_ok {ε : Type} {c : Prop} [Decidable c] {x : Except ε Unit} :
    (if c then x else pure ()) = .ok () ↔ (c → x = .ok ()) := by
  split_ifs with h <;> simp [h]

@[simp] theorem require_eq_ok_iff {c : Prop} [Decidable c] {msg : String} :
    require c msg = .ok () ↔ c := by
  unfold require
  split_ifs <;> simp_all

/-! ## Agreement of two calls -/

/-- Two calls agree: both raise, or both return values related by `R`. -/
inductive ResultRel {ε ε' α β : Type} (R : α → β → Prop) : Except ε α → Except ε' β → Prop
  | error (e : ε) (e' : ε') : ResultRel R (.error e) (.error e')
  | ok {a : α} {b : β} : R a b → ResultRel R (.ok a) (.ok b)

@[simp] theorem resultRel_ok_ok {ε ε' α β : Type} {R : α → β → Prop} (a : α) (b : β) :
    ResultRel R (.ok a : Except ε α) (.ok b : Except ε' β) ↔ R a b :=
  ⟨fun | .ok h => h, .ok⟩

@[simp] theorem resultRel_error_error {ε ε' α β : Type} {R : α → β → Prop} (e : ε) (e' : ε') :
    ResultRel R (.error e : Except ε α) (.error e' : Except ε' β) :=
  .error e e'

@[simp] theorem resultRel_ok_error {ε ε' α β : Type} {R : α → β → Prop} (a : α) (e' : ε') :
    ¬ ResultRel R (.ok a : Except ε α) (.error e' : Except ε' β) :=
  fun h => nomatch h

@[simp] theorem resultRel_error_ok {ε ε' α β : Type} {R : α → β → Prop} (e : ε) (b : β) :
    ¬ ResultRel R (.error e : Except ε α) (.ok b : Except ε' β) :=
  fun h => nomatch h

theorem resultRel_eq_self {ε α : Type} (x : Except ε α) : ResultRel Eq x x := by
  cases x <;> simp

theorem ResultRel.raises_iff {α β : Type} {R : α → β → Prop} {x : Except PyExc α}
    {y : Except PyExc β} (h : ResultRel R x y) : Raises x ↔ Raises y := by
  cases x <;> cases y <;> simp_all

/-- Under `ResultRel Eq`, a value returned on the left is returned on the right. -/
theorem ResultRel.eq_ok {ε ε' α : Type} {x : Except ε α} {y : Except ε' α} {a : α}
    (h : ResultRel Eq x y) (hx : x = .ok a) : y = .ok a := by
  subst hx
  cases y <;> simp_all

theorem ResultRel.of_raises {α β : Type} {R : α → β → Prop} {x : Except PyExc α}
    {y : Except PyExc β} (hx : Raises x) (hy : Raises y) : ResultRel R x y := by
  obtain ⟨e, rfl⟩ := hx
  obtain ⟨e', rfl⟩ := hy
  exact .error e e'

theorem ResultRel.symm_eq {ε ε' α : Type} {x : Except ε α} {y : Except ε' α}
    (h : ResultRel Eq x y) : ResultRel Eq y x := by
  cases x <;> cases y <;> simp_all

theorem ResultRel.trans_eq {ε ε' ε'' α : Type} {x : Except ε α} {y : Except ε' α}
    {z : Except ε'' α} (h : ResultRel Eq x y) (h' : ResultRel Eq y z) : ResultRel Eq x z := by
  cases x <;> cases y <;> cases z <;> simp_all

/-- Related calls followed by related continuations are related. -/
theorem ResultRel.bind {ε ε' α β γ δ : Type} {R : α → β → Prop} {S : γ → δ → Prop}
    {x : Except ε α} {y : Except ε' β} {f : α → Except ε γ} {g : β → Except ε' δ}
    (hxy : ResultRel R x y) (hfg : ∀ a b, R a b → ResultRel S (f a) (g b)) :
    ResultRel S (x >>= f) (y >>= g) := by
  cases x <;> cases y <;> simp_all

/-- Loop congruence: a relation kept by every pair of steps is kept by the loops. -/
theorem ResultRel.foldlM {ε ε' α β ι : Type} {R : α → β → Prop}
    {f : α → ι → Except ε α} {g : β → ι → Except ε' β} :
    ∀ (is : List ι), (∀ i ∈ is, ∀ a b, R a b → ResultRel R (f a i) (g b i)) →
      ∀ (a : α) (b : β), R a b → ResultRel R (is.foldlM f a) (is.foldlM g b)
  | [], _, _, _, h => .ok h
  | i :: is, hstep, a, b, h => by
      simp only [List.foldlM_cons]
      exact (hstep i (List.mem_cons_self i is) a b h).bind fun a' b' h' =>
        ResultRel.foldlM is (fun j hj => hstep j (List.mem_cons_of_mem i hj)) a' b' h'

/-! ## Big- and little-endian integers -/

/-- The byte `x % 256`. -/
def byteOf (x : Nat) : Byte :=
  ⟨x % 256, Nat.mod_lt _ (by decide)⟩

/-- `w` little-endian base-256 digits of `x`. -/
def toBytesLE : Nat → Nat → Bytes
  | 0, _ => []
  | w + 1, x => byteOf x :: toBytesLE w (x / 256)

/-- `int.from_bytes(b, "little")`. -/
def fromBytesLE : Bytes → Nat
  | [] => 0
  | b :: bs => b.val + 256 * fromBytesLE bs

/-- `w` big-endian base-256 digits of `x`. -/
def toBytesBE (w x : Nat) : Bytes :=
  (toBytesLE w x).reverse

/-- `int.from_bytes(b, "big")`. -/
def fromBytesBE (b : Bytes) : Nat :=
  fromBytesLE b.reverse

@[simp] theorem length_toBytesLE (w x : Nat) : (toBytesLE w x).length = w := by
  induction w generalizing x with
  | zero => rfl
  | succ w ih => simp [toBytesLE, ih]

@[simp] theorem length_toBytesBE (w x : Nat) : (toBytesBE w x).length = w := by
  simp [toBytesBE]

theorem fromBytesLE_toBytesLE (w x : Nat) : fromBytesLE (toBytesLE w x) = x % 256 ^ w := by
  induction w generalizing x with
  | zero => simp [toBytesLE, fromBytesLE, Nat.mod_one]
  | succ w ih =>
      simp only [toBytesLE, fromBytesLE, ih, byteOf, pow_succ']
      rw [Nat.mod_mul]

theorem fromBytesBE_toBytesBE (w x : Nat) : fromBytesBE (toBytesBE w x) = x % 256 ^ w := by
  simp [fromBytesBE, toBytesBE, fromBytesLE_toBytesLE]

theorem fromBytesBE_toBytesBE_of_lt {w x : Nat} (h : x < 256 ^ w) :
    fromBytesBE (toBytesBE w x) = x := by
  rw [fromBytesBE_toBytesBE, Nat.mod_eq_of_lt h]

theorem fromBytesLE_lt (b : Bytes) : fromBytesLE b < 256 ^ b.length := by
  induction b with
  | nil => simp [fromBytesLE]
  | cons x b ih =>
      simp only [fromBytesLE, List.length_cons, pow_succ']
      have := x.isLt
      omega

theorem fromBytesBE_lt (b : Bytes) : fromBytesBE b < 256 ^ b.length := by
  simpa [fromBytesBE] using fromBytesLE_lt b.reverse

theorem toBytesLE_fromBytesLE (b : Bytes) : toBytesLE b.length (fromBytesLE b) = b := by
  induction b with
  | nil => rfl
  | cons x b ih =>
      have hx := x.isLt
      have hdiv : (x.val + 256 * fromBytesLE b) / 256 = fromBytesLE b := by omega
      simp only [List.length_cons, toBytesLE, fromBytesLE, hdiv, ih, List.cons.injEq, and_true]
      exact Fin.ext (by simp [byteOf])

@[simp] theorem toBytesLE_zero (w : Nat) : toBytesLE w 0 = List.replicate w 0 := by
  induction w with
  | zero => rfl
  | succ w ih => simp only [toBytesLE, Nat.zero_div, ih, List.replicate_succ]; rfl

/-- Writing back fewer digits than the width pads them with zero bytes. -/
theorem toBytesLE_fromBytesLE_of_le {b : Bytes} {w : Nat} (hl : b.length ≤ w) :
    toBytesLE w (fromBytesLE b) = b ++ List.replicate (w - b.length) 0 := by
  induction b generalizing w with
  | nil => simp [fromBytesLE]
  | cons x b ih =>
      obtain ⟨w, rfl⟩ : ∃ w', w = w' + 1 := ⟨w - 1, by simp at hl; omega⟩
      have hx := x.isLt
      have hdiv : (x.val + 256 * fromBytesLE b) / 256 = fromBytesLE b := by omega
      simp only [List.length_cons, Nat.add_le_add_iff_right] at hl
      simp only [toBytesLE, fromBytesLE, hdiv, ih hl, List.length_cons, List.cons_append,
        List.cons.injEq, Nat.add_sub_add_right, and_true]
      exact Fin.ext (by simp [byteOf])

theorem toBytesLE_fromBytesLE_of_length {b : Bytes} {w : Nat} (h : b.length = w) :
    toBytesLE w (fromBytesLE b) = b :=
  h ▸ toBytesLE_fromBytesLE b

/-- Two consecutive reads from a stream read their total length. -/
theorem take_append_take_drop {α : Type} (l r : List α) (m n : Nat) :
    l.take m ++ ((l.drop m).take n ++ r) = l.take (m + n) ++ r := by
  rw [← List.append_assoc, ← List.take_add]

/-- The value of at most `n` bytes read from a stream. -/
theorem fromBytesLE_take_lt (b : Bytes) (n : Nat) : fromBytesLE (b.take n) < 256 ^ n :=
  lt_of_lt_of_le (fromBytesLE_lt _) (Nat.pow_le_pow_right (by norm_num) (List.length_take_le _ _))

theorem toBytesBE_fromBytesBE (b : Bytes) : toBytesBE b.length (fromBytesBE b) = b := by
  simpa [toBytesBE, fromBytesBE] using congrArg List.reverse (toBytesLE_fromBytesLE b.reverse)

/-- Equal-length byte strings with equal values are equal. -/
theorem eq_of_fromBytesBE_eq {b c : Bytes} (hl : b.length = c.length)
    (hv : fromBytesBE b = fromBytesBE c) : b = c := by
  rw [← toBytesBE_fromBytesBE b, ← toBytesBE_fromBytesBE c, hl, hv]

theorem toBytesBE_eq_of_fromBytesBE {b : Bytes} {x w : Nat} (hl : b.length = w) (hv : fromBytesBE b = x) :
    toBytesBE w x = b := by
  rw [← hl, ← hv, toBytesBE_fromBytesBE]

/-- The byte order argument of `int.to_bytes`. -/
inductive ByteOrder where
  | big
  | little
deriving DecidableEq, Repr

/-- `x.to_bytes(length, byteorder)`, unsigned: raises `OverflowError` unless `0 ≤ x < 256^length`. -/
def intToBytes (x : Int) (length : Nat) (byteorder : ByteOrder) : Except PyExc Bytes :=
  if x < 0 then .error (.overflowError "can't convert negative int to unsigned")
  else if x.toNat < 256 ^ length then
    match byteorder with
    | .big => .ok (toBytesBE length x.toNat)
    | .little => .ok (toBytesLE length x.toNat)
  else .error (.overflowError "int too big to convert")

theorem intToBytes_eq_ok_iff (x : Int) (length : Nat) (byteorder : ByteOrder) (b : Bytes) :
    intToBytes x length byteorder = .ok b ↔
      0 ≤ x ∧ x.toNat < 256 ^ length ∧
        b = (match byteorder with
          | .big => toBytesBE length x.toNat
          | .little => toBytesLE length x.toNat) := by
  unfold intToBytes
  split_ifs with h0 h1 <;> cases byteorder <;> simp_all [eq_comm]

@[simp] theorem intToBytes_natCast_big {x length : Nat} (h : x < 256 ^ length) :
    intToBytes x length .big = .ok (toBytesBE length x) := by
  simp [intToBytes, h, Int.not_lt.mpr (Int.natCast_nonneg x)]

@[simp] theorem intToBytes_natCast_little {x length : Nat} (h : x < 256 ^ length) :
    intToBytes x length .little = .ok (toBytesLE length x) := by
  simp [intToBytes, h, Int.not_lt.mpr (Int.natCast_nonneg x)]

/-- `int.to_bytes` of a non-negative int: the digits, or `OverflowError`. -/
theorem intToBytes_little_of_nonneg {x : Int} (h : 0 ≤ x) (length : Nat) :
    intToBytes x length .little = if x.toNat < 256 ^ length then .ok (toBytesLE length x.toNat)
      else .error (.overflowError "int too big to convert") := by
  simp only [intToBytes, if_neg (not_lt.2 h)]

/-- `x.to_bytes(length, byteorder)` for an int known to be non-negative. -/
def natToBytes (x length : Nat) (byteorder : ByteOrder) : Except PyExc Bytes :=
  intToBytes x length byteorder

@[simp] theorem natToBytes_big {x length : Nat} (h : x < 256 ^ length) :
    natToBytes x length .big = .ok (toBytesBE length x) :=
  intToBytes_natCast_big h

theorem natToBytes_big_eq (x length : Nat) :
    natToBytes x length .big = if x < 256 ^ length then .ok (toBytesBE length x)
      else .error (.overflowError "int too big to convert") := by
  simp only [natToBytes, intToBytes, if_neg (not_lt.2 (Int.natCast_nonneg x)), Int.toNat_natCast]

@[simp] theorem natToBytes_little {x length : Nat} (h : x < 256 ^ length) :
    natToBytes x length .little = .ok (toBytesLE length x) :=
  intToBytes_natCast_little h

/-- `x.to_bytes(length, byteorder, signed=True)`: two's complement, raising
`OverflowError` unless `-2^(8·length-1) ≤ x < 2^(8·length-1)`. -/
def intToBytesSigned (x : Int) (length : Nat) (byteorder : ByteOrder) : Except PyExc Bytes :=
  if -(2 ^ (8 * length - 1) : Int) ≤ x ∧ x < 2 ^ (8 * length - 1) then
    match byteorder with
    | .big => .ok (toBytesBE length (x % 256 ^ length).toNat)
    | .little => .ok (toBytesLE length (x % 256 ^ length).toNat)
  else .error (.overflowError "int too big to convert")

/-- `int.from_bytes(b, "little", signed=True)`: the top bit is the sign. -/
def fromBytesLESigned (b : Bytes) : Int :=
  if 2 ^ (8 * b.length - 1) ≤ fromBytesLE b ∧ b ≠ [] then
    (fromBytesLE b : Int) - 256 ^ b.length
  else fromBytesLE b

/-- A four-byte signed field whose value is positive is its unsigned value. -/
theorem fromBytesLESigned_of_pos {b : Bytes} (h : 0 < fromBytesLESigned b) :
    fromBytesLESigned b = fromBytesLE b := by
  unfold fromBytesLESigned at *
  split_ifs at * with hs
  · have : ((fromBytesLE b : Nat) : Int) < (256 : Int) ^ b.length := by
      exact_mod_cast fromBytesLE_lt b
    omega
  · rfl

/-- A value below the sign bit reads as its unsigned value. -/
theorem fromBytesLESigned_of_lt {b : Bytes} (h : fromBytesLE b < 2 ^ (8 * b.length - 1)) :
    fromBytesLESigned b = fromBytesLE b := by
  simp [fromBytesLESigned, not_le.2 h]

/-- A non-negative value in range is written as its unsigned digits. -/
theorem intToBytesSigned_little_of_nonneg {x : Nat} {length : Nat}
    (h : x < 2 ^ (8 * length - 1)) :
    intToBytesSigned x length .little = .ok (toBytesLE length x) := by
  have hlt : x < 256 ^ length := by
    calc x < 2 ^ (8 * length - 1) := h
      _ ≤ 2 ^ (8 * length) := Nat.pow_le_pow_right (by norm_num) (by omega)
      _ = 256 ^ length := by rw [pow_mul]; norm_num
  have hmod : ((x : Int) % 256 ^ length).toNat = x := by
    rw [Int.emod_eq_of_lt (by omega) (by exact_mod_cast hlt)]
    rfl
  have hpos : (0 : Int) ≤ 2 ^ (8 * length - 1) := by exact_mod_cast Nat.zero_le _
  simp only [intToBytesSigned, hmod]
  rw [if_pos ⟨by omega, by exact_mod_cast h⟩]

/-! ## Indexing, `list.index`, `str.strip` and `BytesIO.read` -/

/-- `b[i]`: raises `IndexError` past the end. -/
def getItem {α : Type} (l : List α) (i : Nat) : Except PyExc α :=
  match l.get? i with
  | some x => .ok x
  | none => .error (.indexError "index out of range")

@[simp] theorem getItem_cons_zero {α : Type} (x : α) (l : List α) : getItem (x :: l) 0 = .ok x :=
  rfl

theorem getItem_of_lt {α : Type} {l : List α} {i : Nat} (h : i < l.length) :
    getItem l i = .ok (l.get ⟨i, h⟩) := by
  simp [getItem, List.getElem?_eq_getElem h]

theorem mem_of_getItem_eq_ok {α : Type} {l : List α} {i : Nat} {x : α}
    (h : getItem l i = .ok x) : x ∈ l := by
  unfold getItem at h
  cases hg : l[i]? with
  | none => simp [hg] at h
  | some y =>
      simp [hg] at h
      exact h ▸ List.getElem?_mem hg

theorem getItem_append_left {α : Type} {l₁ l₂ : List α} {i : Nat} (h : i < l₁.length) :
    getItem (l₁ ++ l₂) i = getItem l₁ i := by
  simp [getItem, List.getElem?_append_left h]

theorem getItem_append_right {α : Type} (l₁ l₂ : List α) (i : Nat) :
    getItem (l₁ ++ l₂) (l₁.length + i) = getItem l₂ i := by
  simp [getItem, List.getElem?_append_right]

theorem getItem_zero_of_length {b : Bytes} (h : 0 < b.length) :
    getItem b 0 = .ok (b.headD 0) := by
  cases b with
  | nil => simp at h
  | cons x b => rfl

/-- `l.index(x)`: the first position of `x`, raising `ValueError` when absent. -/
def listIndex {α : Type} [DecidableEq α] (x : α) : List α → Except PyExc Nat
  | [] => .error (.valueError "is not in list")
  | y :: ys => if y = x then .ok 0 else (listIndex x ys).map (· + 1)

theorem listIndex_eq_ok_of_mem {α : Type} [DecidableEq α] {x : α} :
    ∀ (l : List α), x ∈ l → ∃ i, ∃ h : i < l.length, listIndex x l = .ok i ∧ l.get ⟨i, h⟩ = x
  | y :: ys, hx => by
      by_cases hy : y = x
      · exact ⟨0, by simp, by simp [listIndex, hy], hy⟩
      · obtain ⟨i, hi, he, hg⟩ := listIndex_eq_ok_of_mem ys (by simpa [Ne.symm hy] using hx)
        exact ⟨i + 1, by simp [hi], by simp [listIndex, hy, he, Except.map], hg⟩

/-- `list.index` finds the first position. -/
theorem listIndex_eq_indexOf {α : Type} [DecidableEq α] [BEq α] [LawfulBEq α] {x : α} :
    ∀ {l : List α}, x ∈ l → listIndex x l = .ok (l.indexOf x)
  | y :: ys, hx => by
      by_cases hy : y = x
      · simp [listIndex, hy, List.indexOf, List.findIdx_cons]
      · have hx' : x ∈ ys := by simpa [Ne.symm hy] using hx
        have hb : (y == x) = false := by simpa using hy
        simp [listIndex, hy, listIndex_eq_indexOf hx', Except.map, List.indexOf, List.findIdx_cons,
          hb]

/-- The first position of a member is a position (for any lawful `==`). -/
theorem indexOf_lt_length_of_mem {α : Type} [DecidableEq α] [BEq α] [LawfulBEq α] {x : α}
    {l : List α} (h : x ∈ l) : l.indexOf x < l.length := by
  obtain ⟨i, hi, he, -⟩ := listIndex_eq_ok_of_mem l h
  rw [listIndex_eq_indexOf h, Except.ok.injEq] at he
  exact he ▸ hi

/-- `list.index` of a member of a prefix stops inside the prefix. -/
theorem listIndex_append_of_mem {α : Type} [DecidableEq α] {x : α} {l₂ : List α} :
    ∀ {l₁ : List α}, x ∈ l₁ → listIndex x (l₁ ++ l₂) = listIndex x l₁
  | y :: ys, hx => by
      by_cases hy : y = x
      · simp [listIndex, hy]
      · simp [listIndex, hy, listIndex_append_of_mem (show x ∈ ys by simpa [Ne.symm hy] using hx)]

/-- `list.index` of an item missing from a prefix looks past it. -/
theorem listIndex_append_of_not_mem {α : Type} [DecidableEq α] {x : α} {l₂ : List α} :
    ∀ {l₁ : List α}, x ∉ l₁ → listIndex x (l₁ ++ l₂) = (listIndex x l₂).map (l₁.length + ·)
  | [], _ => by rcases h : listIndex x l₂ <;> simp [Except.map, h]
  | y :: ys, hx => by
      have hy : y ≠ x := fun h => hx (h ▸ List.mem_cons_self y ys)
      rw [List.cons_append, listIndex, if_neg hy,
        listIndex_append_of_not_mem (fun h => hx (List.mem_cons_of_mem y h))]
      rcases h : listIndex x l₂ <;> simp [Except.map, h]
      omega

theorem listIndex_of_not_mem {α : Type} [DecidableEq α] {x : α} :
    ∀ {l : List α}, x ∉ l → listIndex x l = .error (.valueError "is not in list")
  | [], _ => rfl
  | y :: ys, hx => by
      have hy : y ≠ x := fun h => hx (h ▸ List.mem_cons_self y ys)
      simp [listIndex, hy, listIndex_of_not_mem (fun h => hx (List.mem_cons_of_mem y h)),
        Except.map]

theorem raises_listIndex_of_not_mem {α : Type} [DecidableEq α] {x : α} :
    ∀ (l : List α), x ∉ l → Raises (listIndex x l)
  | [], _ => by simp [listIndex]
  | y :: ys, hx => by
      have hy : y ≠ x := fun h => hx (h ▸ List.mem_cons_self y ys)
      obtain ⟨e, he⟩ := raises_listIndex_of_not_mem ys (fun h => hx (List.mem_cons_of_mem y h))
      exact ⟨e, by simp [listIndex, hy, he, Except.map]⟩

/-- A character that `str.strip()` removes (ASCII whitespace). -/
def isSpace (c : Byte) : Bool :=
  c.val = 32 || (9 ≤ c.val && c.val ≤ 13) || (28 ≤ c.val && c.val ≤ 31)

/-- `s.strip()` on ASCII text. -/
def strip (s : Bytes) : Bytes :=
  ((s.dropWhile isSpace).reverse.dropWhile isSpace).reverse

/-- Text with no whitespace at either end is left alone by `strip`. -/
theorem strip_eq_self {s : Bytes} (h : ∀ c ∈ s, isSpace c = false) : strip s = s := by
  have hd : ∀ t : Bytes, (∀ c ∈ t, isSpace c = false) → t.dropWhile isSpace = t := by
    intro t ht
    cases t with
    | nil => rfl
    | cons c t => simp [List.dropWhile, ht c (List.mem_cons_self c t)]
  rw [strip, hd s h, hd s.reverse (by simpa using h), List.reverse_reverse]

/-- `BytesIO.read(n)`: up to `n` bytes from the front, and the rest of the stream. -/
def read (n : Nat) (stream : Bytes) : Bytes × Bytes :=
  (stream.take n, stream.drop n)

/-! ## Formatting used in error messages -/

/-- `b.hex()`: two lowercase hexadecimal digits per byte. -/
def hexBytes (b : Bytes) : String :=
  String.join (b.map fun x =>
    (if x.val < 16 then "0" else "") ++ String.mk (Nat.toDigits 16 x.val))

/-- Modelled from the spec: `hex_string` of `btclib.utils`, which is not among the
sources. The spec does not describe its text; it is taken to be `b.hex()`. The
library's `hex_string` also splits the digits into groups, which this text does
not reproduce: messages that quote it agree with the code's up to that layout. -/
def hexString (b : Bytes) : String :=
  hexBytes b

/-- `a < b` on `bytes`: lexicographic order. -/
def bytesLt : Bytes → Bytes → Bool
  | [], [] => false
  | [], _ :: _ => true
  | _ :: _, [] => false
  | x :: a, y :: b => x < y || (x = y && bytesLt a b)

/-! ## Hexadecimal text -/

/-- The digit value of an ASCII hexadecimal digit, either case. -/
def hexValue (c : Byte) : Option Nat :=
  if 48 ≤ c.val ∧ c.val ≤ 57 then some (c.val - 48)
  else if 97 ≤ c.val ∧ c.val ≤ 102 then some (c.val - 87)
  else if 65 ≤ c.val ∧ c.val ≤ 70 then some (c.val - 55)
  else none

/-- The ASCII whitespace that `bytes.fromhex` skips. -/
def isAsciiSpace (c : Byte) : Bool :=
  c.val = 32 || (9 ≤ c.val && c.val ≤ 13)

/-- `bytes.fromhex` from position `pos` on: whitespace is skipped before a
byte, and every byte is two hexadecimal digits. -/
def fromhexFrom : Nat → Bytes → Except PyExc Bytes
  | _, [] => .ok []
  | pos, c :: rest =>
      if isAsciiSpace c then fromhexFrom (pos + 1) rest
      else
        let err (i : Nat) : Except PyExc Bytes :=
          .error (.valueError ("non-hexadecimal number found in fromhex() arg at position " ++
            toString i))
        match hexValue c, rest with
        | some hi, d :: rest' =>
            match hexValue d with
            | some lo => (fromhexFrom (pos + 2) rest').map (byteOf (16 * hi + lo) :: ·)
            | none => err (pos + 1)
        | some _, [] => err (pos + 1)
        | none, _ => err pos

/-- `bytes.fromhex(s)`. -/
def fromhex (s : Bytes) : Except PyExc Bytes :=
  fromhexFrom 0 s

/-- The lowercase ASCII digit of a nibble. -/
def hexDigit (n : Nat) : Byte :=
  byteOf (if n < 10 then 48 + n else 87 + n)

/-- `b.hex()`: two lowercase digits per byte. -/
def hex (b : Bytes) : Bytes :=
  b.flatMap fun x => [hexDigit (x.val / 16), hexDigit (x.val % 16)]

theorem hexValue_hexDigit : ∀ n : Fin 16, hexValue (hexDigit n.val) = some n.val ∧
    isAsciiSpace (hexDigit n.val) = false := by
  decide

/-- Hexadecimal text has no whitespace for `strip` to remove. -/
theorem strip_hex (b : Bytes) : strip (hex b) = hex b := by
  have hsp : ∀ n : Fin 16, isSpace (hexDigit n.val) = false := by decide
  refine strip_eq_self fun c hc => ?_
  obtain ⟨x, -, hx⟩ := List.mem_flatMap.1 hc
  have := x.isLt
  rcases List.mem_pair.1 hx with rfl | rfl
  · exact hsp ⟨x.val / 16, by omega⟩
  · exact hsp ⟨x.val % 16, by omega⟩

/-- `bytes.fromhex` reads back what `hex()` writes. -/
theorem fromhexFrom_hex (b : Bytes) : ∀ pos, fromhexFrom pos (hex b) = .ok b := by
  induction b with
  | nil => intro pos; rfl
  | cons x b ih =>
      intro pos
      have hx := x.isLt
      obtain ⟨hhi, hshi⟩ := hexValue_hexDigit ⟨x.val / 16, by omega⟩
      obtain ⟨hlo, -⟩ := hexValue_hexDigit ⟨x.val % 16, by omega⟩
      simp only [hex, List.flatMap_cons, List.cons_append, List.nil_append] at ih ⊢
      simp only [fromhexFrom, hshi, hhi, hlo, ih, Bool.false_eq_true, if_false, Except.map]
      exact congrArg (fun y => Except.ok (y :: b)) (Fin.ext (by simp [byteOf]; omega))

theorem fromhex_hex (b : Bytes) : fromhex (hex b) = .ok b :=
  fromhexFrom_hex b 0

/-- The text of an ASCII byte string, as `.decode("ascii")` gives it. -/
def asciiString (b : Bytes) : String :=
  String.mk (b.map fun c => Char.ofNat c.val)

/-- `hex(x)` for a Python int. -/
def hexInt (x : Int) : String :=
  (if x < 0 then "-0x" else "0x") ++ String.mk (Nat.toDigits 16 x.natAbs)

end Btclib
