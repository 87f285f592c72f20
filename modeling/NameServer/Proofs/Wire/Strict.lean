import Mathlib.Algebra.Group.Nat.Defs
import NameServer.Proofs.Outcome
import NameServer.Proofs.Wire.Packet

/-!
# Proofs.Wire.Strict — reading that can break down

The readers of this library are total functions: an access past the end of a packet yields `none`,
recursion ends by construction, and a sum of offsets is as large as it is. A program on a machine has
none of this for free. This file has the readers' steps as such a program takes them:

* `Strict ε α` — a run that yields a value or fails with an `ε`, unless it breaks down: takes a byte
  from outside, does not come out of a loop, builds a name that is none, adds offsets whose sum is no
  word, or asks for more memory than there is;
* `Target` — whether sums are checked, and how much memory there is, with `Target.add` and
  `Target.reserve`;
* `Packet.byteAt`, `Packet.part` and `Strict.octet` take what has to be there, and `Packet.byte?`,
  `Packet.part?` compare offsets first;
* `Strict.loop` takes turns, at most as many as it is given;
* `Strict.of` — a step that does not break down, with `Strict.bind_eq_of` for steps in sequence and
  `Strict.loop_eq_of` for loops.

An offset is a word of 64 bits, and every sum of offsets goes through `Target.add`. Anything in memory
has less than 2⁶³ bytes, so no sum that starts within a packet is too large for a word; but the
offset of a payload and its length need not be such.
-/

namespace NameServer

/-- How a run can break down. -/
inductive Breakdown
  /-- A byte was taken at an offset where there is none. -/
  | outside (pos : Nat)
  /-- A loop was not over after the turns it was given. -/
  | endless
  /-- A name was built of labels that no name can have. -/
  | oversized
  /-- A sum of offsets was too large for a word, and sums are checked. -/
  | overflow
  /-- More bytes were reserved at once than there is room for. -/
  | exhausted (count : Nat)
  deriving DecidableEq, Repr

/-- A run that yields a value or fails, unless it breaks down. -/
abbrev Strict (ε : Type) : Type → Type :=
  ExceptT ε (Except Breakdown)

/-- What a program is built for and runs on. -/
structure Target where
  /-- Whether a sum that is too large for a word stops the program. Otherwise it wraps around. -/
  checked : Bool
  /-- The most bytes that anything in memory can have. -/
  room : Nat
  room_lt : room < 2 ^ 63

namespace Strict

variable {ε α β σ ρ : Type}

/-- A run that breaks down. -/
def breakDown (cause : Breakdown) : Strict ε α :=
  ExceptT.mk (.error cause)

/-- A run that does not break down. -/
def of (x : Except ε α) : Strict ε α :=
  ExceptT.mk (.ok x)

/-! ## Steps in sequence -/

theorem of_ok_bind (a : α) (f : α → Strict ε β) : (of (.ok a) >>= f) = f a := rfl

/-- Two steps that do not break down are one that does not. The second has to keep its promise
only for what the first yields. -/
theorem bind_eq_of {step : Strict ε α} {x : Except ε α} {f : α → Except ε β} {g : α → Strict ε β}
    (hstep : step = of x) (hnext : ∀ a, x = .ok a → g a = of (f a)) :
    (step >>= g) = of (x >>= f) := by
  subst hstep
  cases x with
  | error e => rfl
  | ok a => exact hnext a rfl

/-! ## Loops -/

/-- Takes turns from `state` on until one of them yields a result, but at most `count` of them. -/
def loop (turn : σ → Strict ε (σ ⊕ ρ)) : Nat → σ → Strict ε ρ
  | 0, _ => breakDown .endless
  | count + 1, state => do
    match ← turn state with
    | .inl next => loop turn count next
    | .inr result => return result

/-- What a turn of a loop does that is to end with `outcome`: it ends the loop so, or it goes on to
a state of smaller rank that is to end with the same. -/
def Turns (turn : σ → Strict ε (σ ⊕ ρ)) (rank : σ → Nat) (Ends : σ → Except ε ρ → Prop)
    (state : σ) (outcome : Except ε ρ) : Prop :=
  turn state = of (outcome.map .inr) ∨
    ∃ next, turn state = of (.ok (.inl next)) ∧ rank next < rank state ∧ Ends next outcome

/-- A loop whose turns lower a rank is over after one turn more than the rank it starts with. -/
theorem loop_eq_of {turn : σ → Strict ε (σ ⊕ ρ)} {rank : σ → Nat} {Ends : σ → Except ε ρ → Prop}
    (hturn : ∀ state outcome, Ends state outcome → Turns turn rank Ends state outcome)
    {count : Nat} {state : σ} {outcome : Except ε ρ} (hcount : rank state < count)
    (hends : Ends state outcome) : loop turn count state = of outcome := by
  induction count generalizing state with
  | zero => omega
  | succ count ih =>
      rw [loop]
      rcases hturn state outcome hends with hlast | ⟨next, hmore, hrank, hnext⟩
      · rw [hlast]
        cases outcome <;> rfl
      · rw [hmore]
        exact ih (by omega) hnext

end Strict

/-! ## Words and memory -/

namespace Target

open Strict (of breakDown)

variable {ε : Type} {target : Target} {a b : Nat}

/-- The sum of two words. -/
def add (target : Target) (a b : Nat) : Strict ε Nat :=
  if a + b < 2 ^ 64 then pure (a + b)
  else if target.checked then breakDown .overflow
  else pure (a + b - 2 ^ 64)

/-- Sets memory for `count` bytes aside. -/
def reserve (target : Target) (count : Nat) : Strict ε Unit :=
  if count ≤ target.room then pure () else breakDown (.exhausted count)

theorem add_eq_of (h : a + b < 2 ^ 64) : (target.add a b : Strict ε Nat) = of (.ok (a + b)) :=
  if_pos h

theorem add_checked (hchecked : target.checked = true) (h : 2 ^ 64 ≤ a + b) :
    (target.add a b : Strict ε Nat) = breakDown .overflow := by
  rw [add, if_neg (Nat.not_lt.2 h), if_pos hchecked]

theorem add_wrapped (hchecked : target.checked = false) (h : 2 ^ 64 ≤ a + b) :
    (target.add a b : Strict ε Nat) = of (.ok (a + b - 2 ^ 64)) := by
  rw [add, if_neg (Nat.not_lt.2 h), if_neg (Bool.not_eq_true _ ▸ hchecked)]
  rfl

theorem reserve_eq_of (h : a ≤ target.room) : (target.reserve a : Strict ε Unit) = of (.ok ()) :=
  if_pos h

theorem reserve_exhausted (h : target.room < a) :
    (target.reserve a : Strict ε Unit) = breakDown (.exhausted a) :=
  if_neg (Nat.not_le.2 h)

/-- An offset and a number of bytes, both words, whose sum does not stop the program. -/
structure Adds (target : Target) (pos count : Nat) : Prop where
  pos_lt : pos < 2 ^ 64
  count_lt : count < 2 ^ 64
  sum_lt : target.checked = true → pos + count < 2 ^ 64

theorem adds_of_lt (h : a + b < 2 ^ 64) : target.Adds a b :=
  ⟨by omega, by omega, fun _ => h⟩

end Target

namespace Strict

variable {ε : Type}

/-! ## Bytes that are taken -/

/-- A byte of `bytes`, which has to be there. -/
def octet (bytes : List UInt8) (index : Nat) : Strict ε UInt8 :=
  match bytes[index]? with
  | some byte => pure byte
  | none => breakDown (.outside index)

theorem octet_eq_of {bytes : List UInt8} {index : Nat} {byte : UInt8}
    (h : bytes[index]? = some byte) : (octet bytes index : Strict ε UInt8) = of (.ok byte) := by
  unfold octet
  rw [h]
  rfl

end Strict

namespace Packet

open Strict (of breakDown octet)

variable {ε : Type} {target : Target} {packet : Packet} {pos : Nat}

/-- The byte at `pos`, which has to be there. -/
def byteAt (packet : Packet) (pos : Nat) : Strict ε UInt8 :=
  if h : pos < packet.size then pure packet[pos] else breakDown (.outside pos)

/-- The bytes from `pos` up to `limit`, which have to be there. -/
def part (packet : Packet) (pos limit : Nat) : Strict ε (List UInt8) :=
  if pos ≤ limit ∧ limit ≤ packet.size then pure (packet.extract pos limit).toList
  else breakDown (.outside limit)

theorem byteAt_eq_of {byte : UInt8} (h : packet[pos]? = some byte) :
    (packet.byteAt pos : Strict ε UInt8) = of (.ok byte) := by
  rcases Array.getElem?_eq_some_iff.1 h with ⟨hlt, rfl⟩
  unfold byteAt
  rw [dif_pos hlt]
  rfl

/-! ## Bytes that are looked for -/

/-- The byte at `pos`, if `pos` is within the packet. -/
def byte? (packet : Packet) (pos : Nat) : Strict ε (Option UInt8) :=
  if pos < packet.size then some <$> packet.byteAt pos else pure none

/-- The `count` bytes from `pos` on, if they end within the packet. -/
def part? (target : Target) (packet : Packet) (pos count : Nat) :
    Strict ε (Option (List UInt8)) := do
  let limit ← target.add pos count
  if pos ≤ limit ∧ limit ≤ packet.size then some <$> packet.part pos limit else return none

theorem byte?_eq_of (packet : Packet) (pos : Nat) :
    (packet.byte? pos : Strict ε (Option UInt8)) = of (.ok packet[pos]?) := by
  unfold byte?
  by_cases hlt : pos < packet.size
  · rw [if_pos hlt, byteAt_eq_of (Array.getElem?_eq_getElem hlt), Array.getElem?_eq_getElem hlt]
    rfl
  · rw [if_neg hlt, Array.getElem?_eq_none (by omega)]
    rfl

/-- No part is found where the sum of its offset and its size wraps around. -/
theorem part?_eq_of {count : Nat} (hroom : packet.size ≤ target.room)
    (hadds : target.Adds pos count) :
    (packet.part? target pos count : Strict ε (Option (List UInt8))) =
      of (.ok (packet.slice? pos count)) := by
  have hlt := target.room_lt
  unfold part? slice?
  by_cases hsum : pos + count < 2 ^ 64
  · rw [Target.add_eq_of hsum, Strict.of_ok_bind]
    by_cases hle : pos + count ≤ packet.size
    · have hpart : pos ≤ pos + count ∧ pos + count ≤ packet.size := ⟨Nat.le_add_right _ _, hle⟩
      rw [if_pos hpart, if_pos hle, part, if_pos hpart]
      rfl
    · rw [if_neg fun hpart => hle hpart.2, if_neg hle]
      rfl
  · have hchecked : target.checked = false := by
      rw [← Bool.not_eq_true]
      exact fun hchecked => hsum (hadds.sum_lt hchecked)
    have hpos := hadds.pos_lt
    have hcount := hadds.count_lt
    rw [Target.add_wrapped hchecked (Nat.not_lt.1 hsum), Strict.of_ok_bind,
      if_neg fun hpart => by omega, if_neg (by omega)]
    rfl

/-- The bytes of a slice are those of the packet. -/
theorem getElem?_of_slice? {bytes : List UInt8} {count index : Nat}
    (h : packet.slice? pos count = some bytes) (hlt : index < count) :
    bytes[index]? = packet[pos + index]? := by
  rcases holdsAt_of_slice? h with ⟨⟨rest, hrest⟩, hlen, -⟩
  calc
    bytes[index]? = (bytes ++ rest)[index]? := by
      rw [List.getElem?_append_left (by omega)]
    _ = packet[pos + index]? := by
      rw [hrest, List.getElem?_drop, Array.getElem?_toList]

/-- Every byte of a slice can be taken. -/
theorem exists_octet {bytes : List UInt8} {count : Nat}
    (h : packet.slice? pos count = some bytes) (index : Nat) (hlt : index < count) :
    ∃ byte, packet[pos + index]? = some byte ∧
      (octet bytes index : Strict ε UInt8) = of (.ok byte) := by
  have hlen := (holdsAt_of_slice? h).2.1
  have hget : bytes[index]? = some bytes[index] := List.getElem?_eq_getElem (by omega)
  refine ⟨bytes[index], ?_, Strict.octet_eq_of hget⟩
  rw [← getElem?_of_slice? h hlt, hget]

/-! ## Words -/

/-- The 16-bit word at `pos`, made of the bytes of a part. -/
def wordStrict16? (target : Target) (packet : Packet) (pos : Nat) : Strict ε (Option UInt16) := do
  match ← packet.part? target pos 2 with
  | none => return none
  | some bytes => return some (Octets.toWord16 (← octet bytes 0) (← octet bytes 1))

/-- The 32-bit word at `pos`, made of the bytes of a part. -/
def wordStrict32? (target : Target) (packet : Packet) (pos : Nat) : Strict ε (Option UInt32) := do
  match ← packet.part? target pos 4 with
  | none => return none
  | some bytes =>
    return some (Octets.toWord32 (← octet bytes 0) (← octet bytes 1) (← octet bytes 2)
      (← octet bytes 3))

/-- A part that is not there lacks its last byte. -/
theorem getElem?_of_slice?_none {count : Nat} (h : packet.slice? pos (count + 1) = none) :
    packet[pos + count]? = none := by
  unfold slice? at h
  split at h
  · cases h
  · exact Array.getElem?_eq_none (by omega)

theorem wordStrict16?_eq_of (hroom : packet.size ≤ target.room) (hadds : target.Adds pos 2) :
    (packet.wordStrict16? target pos : Strict ε (Option UInt16)) =
      of (.ok (packet.word16? pos)) := by
  unfold wordStrict16? word16?
  rw [part?_eq_of hroom hadds, Strict.of_ok_bind]
  cases hslice : packet.slice? pos 2 with
  | none =>
      rw [getElem?_of_slice?_none hslice]
      cases packet[pos]? <;> rfl
  | some bytes =>
      rcases exists_octet (ε := ε) hslice 0 (by omega) with ⟨hi, hhi, hget₀⟩
      rcases exists_octet (ε := ε) hslice 1 (by omega) with ⟨lo, hlo, hget₁⟩
      rw [Nat.add_zero] at hhi
      simp only [hget₀, hget₁, hhi, hlo, Strict.of_ok_bind]
      rfl

theorem wordStrict32?_eq_of (hroom : packet.size ≤ target.room) (hadds : target.Adds pos 4) :
    (packet.wordStrict32? target pos : Strict ε (Option UInt32)) =
      of (.ok (packet.word32? pos)) := by
  unfold wordStrict32? word32?
  rw [part?_eq_of hroom hadds, Strict.of_ok_bind]
  cases hslice : packet.slice? pos 4 with
  | none =>
      rw [getElem?_of_slice?_none hslice]
      cases packet[pos]? <;> cases packet[pos + 1]? <;> cases packet[pos + 2]? <;> rfl
  | some bytes =>
      rcases exists_octet (ε := ε) hslice 0 (by omega) with ⟨b₃, h₃, hget₀⟩
      rcases exists_octet (ε := ε) hslice 1 (by omega) with ⟨b₂, h₂, hget₁⟩
      rcases exists_octet (ε := ε) hslice 2 (by omega) with ⟨b₁, h₁, hget₂⟩
      rcases exists_octet (ε := ε) hslice 3 (by omega) with ⟨b₀, h₀, hget₃⟩
      rw [Nat.add_zero] at h₃
      simp only [hget₀, hget₁, hget₂, hget₃, h₃, h₂, h₁, h₀, Strict.of_ok_bind]
      rfl

/-! ## Fields -/

/-- The 16-bit field at `pos` of a message. -/
def fieldStrict16 (target : Target) (packet : Packet) (pos : Nat) : Strict WireError UInt16 := do
  match ← packet.wordStrict16? target pos with
  | some w => return w
  | none => throw (.word16RunsOut pos)

/-- The 32-bit field at `pos` of a message. -/
def fieldStrict32 (target : Target) (packet : Packet) (pos : Nat) : Strict WireError UInt32 := do
  match ← packet.wordStrict32? target pos with
  | some w => return w
  | none => throw (.word32RunsOut pos)

theorem fieldStrict16_eq_of (hroom : packet.size ≤ target.room) (hadds : target.Adds pos 2) :
    packet.fieldStrict16 target pos = of (packet.field16 pos) := by
  unfold fieldStrict16 field16
  rw [wordStrict16?_eq_of hroom hadds, Strict.of_ok_bind]
  cases packet.word16? pos <;> rfl

theorem fieldStrict32_eq_of (hroom : packet.size ≤ target.room) (hadds : target.Adds pos 4) :
    packet.fieldStrict32 target pos = of (packet.field32 pos) := by
  unfold fieldStrict32 field32
  rw [wordStrict32?_eq_of hroom hadds, Strict.of_ok_bind]
  cases packet.word32? pos <;> rfl

/-- The 16-bit field `skip` bytes behind `pos`. -/
def fieldBehind16 (target : Target) (packet : Packet) (pos skip : Nat) :
    Strict WireError UInt16 := do
  packet.fieldStrict16 target (← target.add pos skip)

/-- The 32-bit field `skip` bytes behind `pos`. -/
def fieldBehind32 (target : Target) (packet : Packet) (pos skip : Nat) :
    Strict WireError UInt32 := do
  packet.fieldStrict32 target (← target.add pos skip)

theorem fieldBehind16_eq_of {skip : Nat} (hroom : packet.size ≤ target.room)
    (h : pos + skip + 2 < 2 ^ 64) :
    packet.fieldBehind16 target pos skip = of (packet.field16 (pos + skip)) := by
  rw [fieldBehind16, Target.add_eq_of (by omega), Strict.of_ok_bind,
    fieldStrict16_eq_of hroom (Target.adds_of_lt h)]

theorem fieldBehind32_eq_of {skip : Nat} (hroom : packet.size ≤ target.room)
    (h : pos + skip + 4 < 2 ^ 64) :
    packet.fieldBehind32 target pos skip = of (packet.field32 (pos + skip)) := by
  rw [fieldBehind32, Target.add_eq_of (by omega), Strict.of_ok_bind,
    fieldStrict32_eq_of hroom (Target.adds_of_lt h)]

end Packet

end NameServer
