import Mathlib
import Netcode.Proofs.Wire.Codec

set_option autoImplicit false

namespace Netcode

namespace WireWith

variable {σ α β : Type}

section Run

variable (m : Message) (s : σ)

@[simp] theorem run_pure (a : α) : (pure a : WireWith σ α).run m s = (.ok a, m, s) := rfl

@[simp] theorem run_throw (e : NetError) : (throw e : WireWith σ α).run m s = (.error e, m, s) := rfl

@[simp] theorem run_value : (value : WireWith σ σ).run m s = (.ok s, m, s) := rfl

@[simp] theorem run_update (f : σ → σ) : (update f : WireWith σ Unit).run m s = (.ok (), m, f s) := rfl

theorem run_wire {w : Wire α} {r : Except NetError α} {m' : Message} (ran : m.run w = (r, m')) :
    (wire w : WireWith σ α).run m s = (r, m', s) := by
  have unfolded : (wire w : WireWith σ α).run m s = ((m.run w).1, (m.run w).2, s) := rfl
  rw [unfolded, ran]

theorem run_bind (x : WireWith σ α) (f : α → WireWith σ β) :
    (x >>= f).run m s = match x.run m s with
      | (.ok a, m', s') => (f a).run m' s'
      | (.error e, m', s') => (.error e, m', s') := by
  simp only [WireWith.run, bind, ExceptT.bind, ExceptT.run, ExceptT.mk, StateT.bind, StateT.run]
  rcases x (m, s) with ⟨_ | _, _, _⟩ <;> rfl

theorem run_bind_ok {x : WireWith σ α} {a : α} {m' : Message} {s' : σ} (first : x.run m s = (.ok a, m', s'))
    (f : α → WireWith σ β) : (x >>= f).run m s = (f a).run m' s' := by
  rw [run_bind, first]

theorem run_bind_error {x : WireWith σ α} {e : NetError} {m' : Message} {s' : σ}
    (first : x.run m s = (.error e, m', s')) (f : α → WireWith σ β) :
    (x >>= f).run m s = (.error e, m', s') := by
  rw [run_bind, first]

end Run

/-- On every bit-packed reader whose unread bits start with `bits`, `r` run from `s` succeeds with
`a`, leaves the bits after them and leaves the value `s'`. -/
def Parses (r : WireWith σ α) (bits : List Bool) (s : σ) (a : α) (s' : σ) : Prop :=
  ∀ (m : Message) (rest : List Bool), m.Reading → m.unread = bits ++ rest →
    ∃ m' : Message, r.run m s = (.ok a, m', s') ∧ m'.Reading ∧ m'.unread = rest

theorem parses_pure (s : σ) (a : α) : Parses (pure a) [] s a s :=
  fun m rest reading input => ⟨m, rfl, reading, by simpa using input⟩

theorem parses_value (s : σ) : Parses value [] s s s :=
  fun m rest reading input => ⟨m, rfl, reading, by simpa using input⟩

theorem parses_update (f : σ → σ) (s : σ) : Parses (update f) [] s () (f s) :=
  fun m rest reading input => ⟨m, rfl, reading, by simpa using input⟩

theorem parses_wire {r : Wire α} {bits : List Bool} {a : α} (parses : Wire.Parses r bits a) (s : σ) :
    Parses (wire r) bits s a s := by
  intro m rest reading input
  obtain ⟨m', ran, reading', unread'⟩ := parses m rest reading input
  exact ⟨m', run_wire m s ran, reading', unread'⟩

theorem Parses.bind {x : WireWith σ α} {f : α → WireWith σ β} {a : α} {b : β} {s₀ s₁ s₂ : σ}
    {front back : List Bool} (first : Parses x front s₀ a s₁) (next : Parses (f a) back s₁ b s₂) :
    Parses (x >>= f) (front ++ back) s₀ b s₂ := by
  intro m rest reading input
  obtain ⟨m₁, run₁, reading₁, unread₁⟩ :=
    first m (back ++ rest) reading (by rw [input, List.append_assoc])
  obtain ⟨m₂, run₂, reading₂, unread₂⟩ := next m₁ rest reading₁ unread₁
  exact ⟨m₂, by rw [run_bind_ok m s₀ run₁, run₂], reading₂, unread₂⟩

theorem Parses.of_eq {r : WireWith σ α} {a a' : α} {s s' s'' : σ} {bits bits' : List Bool}
    (parses : Parses r bits s a s') (sameBits : bits = bits') (sameValue : a = a') (sameState : s' = s'') :
    Parses r bits' s a' s'' :=
  sameBits ▸ sameValue ▸ sameState ▸ parses

/-- A reader that takes its bound on loop rounds from what is left of the message gets a bound
above an eighth of the bits it parses, whatever follows them. -/
theorem parses_budget {k : Nat → WireWith σ α} {bits : List Bool} {s s' : σ} {a : α}
    (enough : ∀ fuel, bits.length < 8 * fuel → Parses (k fuel) bits s a s') :
    Parses (wire Wire.readBudget >>= k) bits s a s' := by
  intro m rest reading input
  have budget : bits.length < 8 * (m.stream.remaining + 9) := by
    have total := Message.length_unread m
    rw [input, List.length_append] at total
    have pending := reading.pending
    simp only [ByteStream.remaining, ByteStream.length]
    omega
  rw [run_bind_ok m s (run_wire m s (rfl : m.run Wire.readBudget = (.ok (m.stream.remaining + 9), m)))]
  exact enough _ budget m rest reading input

theorem parses_encode {γ : Type} {w : Wire γ} {c : γ} {bits : List Bool} {r : WireWith σ α} {s s' : σ}
    {a : α} (emits : Wire.Emits w c bits) (parses : Parses r bits s a s') :
    (Message.encode w).1 = .ok c ∧ (r.run (Message.ofBytes (Message.encode w).2) s).1 = .ok a ∧
      (r.run (Message.ofBytes (Message.encode w).2) s).2.2 = s' := by
  obtain ⟨wrote, reading, pad, unread⟩ := Wire.encode_unread emits
  obtain ⟨m, ran, -, -⟩ := parses _ _ reading unread
  exact ⟨wrote, by rw [ran], by rw [ran]⟩

end WireWith

end Netcode
