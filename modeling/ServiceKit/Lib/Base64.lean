import Mathlib.Tactic.IntervalCases

/-!
# `Lib.Base64` — standard base64 with padding

`encode` and `decode` of Go's `base64.StdEncoding`: the alphabet `A-Z a-z 0-9 + /`, `=` as padding. The
decoder skips line breaks, wants the padding complete and nothing after it, and (as it is not strict)
ignores the unused low bits of the last symbol. `decode_encode` is the round trip, and
`decode_eq_none_iff` says which texts are refused, by their syntax (`Valid`).
-/

namespace ServiceKit
namespace Lib
namespace Base64

/-- The symbol of a six-bit value. -/
def symbol (v : ℕ) : UInt8 :=
  if v < 26 then (65 + v).toUInt8
  else if v < 52 then (71 + v).toUInt8
  else if v < 62 then (v - 4).toUInt8
  else if v = 62 then 43
  else 47

/-- The six-bit value of a symbol; `none` outside the alphabet. -/
def value (c : UInt8) : Option ℕ :=
  let n := c.toNat
  if 65 ≤ n ∧ n ≤ 90 then some (n - 65)
  else if 97 ≤ n ∧ n ≤ 122 then some (n - 71)
  else if 48 ≤ n ∧ n ≤ 57 then some (n + 4)
  else if n = 43 then some 62
  else if n = 47 then some 63
  else none

def pad : UInt8 := 61

def isNewline (c : UInt8) : Bool := c = 10 || c = 13

def encode : List UInt8 → List UInt8
  | [] => []
  | [x] => [symbol (x.toNat / 4), symbol (x.toNat % 4 * 16), pad, pad]
  | [x, y] =>
      [symbol (x.toNat / 4), symbol (x.toNat % 4 * 16 + y.toNat / 16), symbol (y.toNat % 16 * 4), pad]
  | x :: y :: z :: rest =>
      symbol (x.toNat / 4) :: symbol (x.toNat % 4 * 16 + y.toNat / 16)
        :: symbol (y.toNat % 16 * 4 + z.toNat / 64) :: symbol (z.toNat % 64) :: encode rest

/-- The three bytes of four six-bit values. -/
def byte₀ (a b : ℕ) : UInt8 := (a * 4 + b / 16).toUInt8
def byte₁ (b c : ℕ) : UInt8 := (b % 16 * 16 + c / 4).toUInt8
def byte₂ (c d : ℕ) : UInt8 := (c % 4 * 64 + d).toUInt8

/-- Decode a text without line breaks, four symbols at a time. -/
def decodeQuanta : List UInt8 → Option (List UInt8)
  | [] => some []
  | s₀ :: s₁ :: s₂ :: s₃ :: rest => do
      let a ← value s₀
      let b ← value s₁
      -- padding ends the text: one byte is left, or two
      if s₂ = pad then
        if s₃ = pad ∧ rest = [] then return [byte₀ a b] else none
      else
        let c ← value s₂
        if s₃ = pad then
          if rest = [] then return [byte₀ a b, byte₁ b c] else none
        else
          let d ← value s₃
          let tail ← decodeQuanta rest
          return byte₀ a b :: byte₁ b c :: byte₂ c d :: tail
  | _ => none

/-- `StdEncoding.DecodeString`: `none` where it returns a `CorruptInputError`. -/
def decode (s : List UInt8) : Option (List UInt8) := decodeQuanta (s.filter (fun c => !isNewline c))

/-! ## Syntax -/

/-- The characters of the alphabet: letters, digits, `+` and `/`. -/
def IsSymbol (c : UInt8) : Prop :=
  (65 ≤ c ∧ c ≤ 90) ∨ (97 ≤ c ∧ c ≤ 122) ∨ (48 ≤ c ∧ c ≤ 57) ∨ c = 43 ∨ c = 47

instance (c : UInt8) : Decidable (IsSymbol c) := inferInstanceAs (Decidable (_ ∨ _))

/-- Groups of four symbols, of which the last may end in one pad or in two. -/
inductive WellPadded : List UInt8 → Prop
  | nil : WellPadded []
  | twoPads {s₀ s₁ : UInt8} : IsSymbol s₀ → IsSymbol s₁ → WellPadded [s₀, s₁, pad, pad]
  | onePad {s₀ s₁ s₂ : UInt8} : IsSymbol s₀ → IsSymbol s₁ → IsSymbol s₂ → WellPadded [s₀, s₁, s₂, pad]
  | quantum {s₀ s₁ s₂ s₃ : UInt8} {rest : List UInt8} : IsSymbol s₀ → IsSymbol s₁ → IsSymbol s₂ →
      IsSymbol s₃ → WellPadded rest → WellPadded (s₀ :: s₁ :: s₂ :: s₃ :: rest)

/-- Base64 by its syntax: line breaks may stand anywhere and count for nothing. -/
def Valid (s : List UInt8) : Prop := WellPadded (s.filter (fun c => !isNewline c))

theorem value_isSome_iff (c : UInt8) : (∃ v, value c = some v) ↔ IsSymbol c := by
  unfold value IsSymbol
  simp only [UInt8.le_iff_toNat_le, ← UInt8.toNat_inj]
  dsimp only [UInt8.reduceToNat]
  split_ifs <;> simp <;> omega

theorem pad_not_symbol : ¬ IsSymbol pad := by decide

/-- What is decoded is well padded. -/
theorem wellPadded_of_decodeQuanta {s bs : List UInt8} (h : decodeQuanta s = some bs) : WellPadded s := by
  induction s using decodeQuanta.induct generalizing bs with
  | case1 => exact .nil
  | case2 s₀ s₁ s₂ s₃ rest ih =>
      rw [decodeQuanta, Option.bind_eq_bind, Option.bind_eq_some_iff] at h
      obtain ⟨a, ha, h⟩ := h
      rw [Option.bind_eq_some_iff] at h
      obtain ⟨b, hb, h⟩ := h
      have h₀ := (value_isSome_iff s₀).mp ⟨a, ha⟩
      have h₁ := (value_isSome_iff s₁).mp ⟨b, hb⟩
      split at h
      · next hs₂ =>
          split at h
          · next hend =>
              obtain ⟨rfl, rfl⟩ := hend
              rw [hs₂]
              exact .twoPads h₀ h₁
          · exact absurd h nofun
      · next hs₂ =>
          rw [Option.bind_eq_some_iff] at h
          obtain ⟨c, hc, h⟩ := h
          have h₂ := (value_isSome_iff s₂).mp ⟨c, hc⟩
          split at h
          · next hs₃ =>
              split at h
              · next hend =>
                  rw [hs₃, hend]
                  exact .onePad h₀ h₁ h₂
              · exact absurd h nofun
          · rw [Option.bind_eq_some_iff] at h
            obtain ⟨d, hd, h⟩ := h
            rw [Option.bind_eq_bind, Option.bind_eq_some_iff] at h
            obtain ⟨tail, htail, h⟩ := h
            exact .quantum h₀ h₁ h₂ ((value_isSome_iff s₃).mp ⟨d, hd⟩) (ih htail)
  | case3 s hnil hquantum =>
      rw [decodeQuanta] at h
      · exact absurd h nofun
      · exact hnil
      · exact hquantum

/-- What is well padded is decoded. -/
theorem decodeQuanta_of_wellPadded {s : List UInt8} (h : WellPadded s) : ∃ bs, decodeQuanta s = some bs := by
  have hne : ∀ {c : UInt8}, IsSymbol c → c ≠ pad := by
    rintro c hc rfl
    exact pad_not_symbol hc
  induction h with
  | nil => exact ⟨[], rfl⟩
  | twoPads h₀ h₁ =>
      obtain ⟨a, ha⟩ := (value_isSome_iff _).mpr h₀
      obtain ⟨b, hb⟩ := (value_isSome_iff _).mpr h₁
      refine ⟨[byte₀ a b], ?_⟩
      simp [decodeQuanta, ha, hb]
  | onePad h₀ h₁ h₂ =>
      obtain ⟨a, ha⟩ := (value_isSome_iff _).mpr h₀
      obtain ⟨b, hb⟩ := (value_isSome_iff _).mpr h₁
      obtain ⟨c, hc⟩ := (value_isSome_iff _).mpr h₂
      refine ⟨[byte₀ a b, byte₁ b c], ?_⟩
      simp [decodeQuanta, ha, hb, hc, hne h₂]
  | quantum h₀ h₁ h₂ h₃ _ ih =>
      obtain ⟨a, ha⟩ := (value_isSome_iff _).mpr h₀
      obtain ⟨b, hb⟩ := (value_isSome_iff _).mpr h₁
      obtain ⟨c, hc⟩ := (value_isSome_iff _).mpr h₂
      obtain ⟨d, hd⟩ := (value_isSome_iff _).mpr h₃
      obtain ⟨tail, htail⟩ := ih
      refine ⟨byte₀ a b :: byte₁ b c :: byte₂ c d :: tail, ?_⟩
      simp [decodeQuanta, ha, hb, hc, hd, htail, hne h₂, hne h₃]

/-- **The decoder refuses exactly what is not base64.** -/
theorem decode_eq_none_iff (s : List UInt8) : decode s = none ↔ ¬ Valid s := by
  constructor
  · intro hnone hvalid
    obtain ⟨bs, hbs⟩ := decodeQuanta_of_wellPadded hvalid
    rw [decode, hbs] at hnone
    exact absurd hnone nofun
  · intro hvalid
    cases h : decode s with
    | none => rfl
    | some bs => exact absurd (wellPadded_of_decodeQuanta h) hvalid

/-! ## Round trip -/

theorem value_symbol {v : ℕ} (h : v < 64) : value (symbol v) = some v := by
  interval_cases v <;> decide

theorem symbol_ne_pad {v : ℕ} (h : v < 64) : symbol v ≠ pad := by
  interval_cases v <;> decide

theorem symbol_not_newline {v : ℕ} (h : v < 64) : isNewline (symbol v) = false := by
  interval_cases v <;> decide

theorem byte₀_eq (x : UInt8) {r : ℕ} (hr : r < 16) :
    byte₀ (x.toNat / 4) (x.toNat % 4 * 16 + r) = x := by
  have hx := x.toNat_lt
  rw [byte₀, show x.toNat / 4 * 4 + (x.toNat % 4 * 16 + r) / 16 = x.toNat by omega]
  exact UInt8.ofNat_toNat

theorem byte₁_eq (y : UInt8) {q r : ℕ} (hr : r < 4) :
    byte₁ (q * 16 + y.toNat / 16) (y.toNat % 16 * 4 + r) = y := by
  have hy := y.toNat_lt
  rw [byte₁, show (q * 16 + y.toNat / 16) % 16 * 16 + (y.toNat % 16 * 4 + r) / 4 = y.toNat by omega]
  exact UInt8.ofNat_toNat

theorem byte₂_eq (z : UInt8) (q : ℕ) :
    byte₂ (q * 4 + z.toNat / 64) (z.toNat % 64) = z := by
  have hz := z.toNat_lt
  rw [byte₂, show (q * 4 + z.toNat / 64) % 4 * 64 + z.toNat % 64 = z.toNat by omega]
  exact UInt8.ofNat_toNat

/-- Four symbols of the alphabet decode to three bytes in front of the rest. -/
theorem decodeQuanta_symbols {a b c d : ℕ} (ha : a < 64) (hb : b < 64) (hc : c < 64) (hd : d < 64)
    (rest : List UInt8) :
    decodeQuanta (symbol a :: symbol b :: symbol c :: symbol d :: rest)
      = (decodeQuanta rest).map (fun tail => byte₀ a b :: byte₁ b c :: byte₂ c d :: tail) := by
  rw [decodeQuanta]
  simp only [value_symbol ha, value_symbol hb, value_symbol hc, value_symbol hd, symbol_ne_pad hc,
    symbol_ne_pad hd, if_false, Option.bind_eq_bind, Option.bind_some]
  cases decodeQuanta rest <;> rfl

theorem decodeQuanta_encode (bs : List UInt8) : decodeQuanta (encode bs) = some bs := by
  induction bs using encode.induct with
  | case1 => rfl
  | case2 x =>
      have hx := x.toNat_lt
      have h₀ : byte₀ (x.toNat / 4) (x.toNat % 4 * 16) = x := by simpa using byte₀_eq x (r := 0) (by omega)
      simp [encode, decodeQuanta, value_symbol (show x.toNat / 4 < 64 by omega),
        value_symbol (show x.toNat % 4 * 16 < 64 by omega), h₀]
  | case3 x y =>
      have hx := x.toNat_lt
      have hy := y.toNat_lt
      have h₁ : byte₁ (x.toNat % 4 * 16 + y.toNat / 16) (y.toNat % 16 * 4) = y := by
        simpa using byte₁_eq y (q := x.toNat % 4) (r := 0) (by omega)
      simp [encode, decodeQuanta, value_symbol (show x.toNat / 4 < 64 by omega),
        value_symbol (show x.toNat % 4 * 16 + y.toNat / 16 < 64 by omega),
        value_symbol (show y.toNat % 16 * 4 < 64 by omega),
        symbol_ne_pad (show y.toNat % 16 * 4 < 64 by omega), byte₀_eq x (show y.toNat / 16 < 16 by omega),
        h₁]
  | case4 x y z rest ih =>
      have hx := x.toNat_lt
      have hy := y.toNat_lt
      have hz := z.toNat_lt
      rw [encode, decodeQuanta_symbols (by omega) (by omega) (by omega) (by omega), ih,
        byte₀_eq x (by omega), byte₁_eq y (by omega), byte₂_eq z]
      rfl

/-- An encoding holds symbols of the alphabet and padding only. -/
theorem encode_alphabet (bs : List UInt8) : ∀ c ∈ encode bs, c = pad ∨ ∃ v < 64, c = symbol v := by
  induction bs using encode.induct with
  | case1 => nofun
  | case2 x =>
      have hx := x.toNat_lt
      intro c hc
      simp only [encode, List.mem_cons, List.not_mem_nil, or_false] at hc
      rcases hc with rfl | rfl | rfl | rfl
      · exact Or.inr ⟨_, by omega, rfl⟩
      · exact Or.inr ⟨_, by omega, rfl⟩
      · exact Or.inl rfl
      · exact Or.inl rfl
  | case3 x y =>
      have hx := x.toNat_lt
      have hy := y.toNat_lt
      intro c hc
      simp only [encode, List.mem_cons, List.not_mem_nil, or_false] at hc
      rcases hc with rfl | rfl | rfl | rfl
      · exact Or.inr ⟨_, by omega, rfl⟩
      · exact Or.inr ⟨_, by omega, rfl⟩
      · exact Or.inr ⟨_, by omega, rfl⟩
      · exact Or.inl rfl
  | case4 x y z rest ih =>
      have hx := x.toNat_lt
      have hy := y.toNat_lt
      have hz := z.toNat_lt
      intro c hc
      simp only [encode, List.mem_cons] at hc
      rcases hc with rfl | rfl | rfl | rfl | hc
      · exact Or.inr ⟨_, by omega, rfl⟩
      · exact Or.inr ⟨_, by omega, rfl⟩
      · exact Or.inr ⟨_, by omega, rfl⟩
      · exact Or.inr ⟨_, by omega, rfl⟩
      · exact ih c hc

/-- A property of the alphabet and the padding holds of every character of an encoding. -/
theorem encode_forall {P : UInt8 → Prop} (hpad : P pad) (hsymbol : ∀ v < 64, P (symbol v))
    (bs : List UInt8) : ∀ c ∈ encode bs, P c := by
  intro c hc
  rcases encode_alphabet bs c hc with rfl | ⟨v, hv, rfl⟩
  · exact hpad
  · exact hsymbol v hv

/-- **Round trip.** -/
theorem decode_encode (bs : List UInt8) : decode (encode bs) = some bs := by
  have h : (encode bs).filter (fun c => !isNewline c) = encode bs := by
    apply List.filter_eq_self.mpr
    exact encode_forall (by decide) (fun v hv => by simp [symbol_not_newline hv]) bs
  rw [decode, h, decodeQuanta_encode]

end Base64
end Lib
end ServiceKit
