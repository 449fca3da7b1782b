import Mathlib.Data.List.AList
import Mathlib.Data.List.Perm.Basic

/-!
# `Lib.MimeHeader` — MIME headers with canonical keys

A header is a map from field names to lists of values. `get` and `set` go by the canonical form of the
name: the first letter and every letter after a hyphen in upper case, the others in lower case. A name
with a byte that no token has is its own canonical form. The map itself may hold any keys, canonical or
not; `get` and `set` never see the others.
-/

namespace ServiceKit
namespace Lib

/-- A map from names to values. -/
abbrev Header := AList (fun _ : List UInt8 => List (List UInt8))

namespace Header

/-- The bytes of a token: letters, digits and the marks among these. -/
def isTokenByte (c : UInt8) : Bool :=
  (48 ≤ c && c ≤ 57) || (65 ≤ c && c ≤ 90) || (97 ≤ c && c ≤ 122) ||
    [33, 35, 36, 37, 38, 39, 42, 43, 45, 46, 94, 95, 96, 124, 126].contains c

def toUpper (c : UInt8) : UInt8 := if 97 ≤ c && c ≤ 122 then c - 32 else c
def toLower (c : UInt8) : UInt8 := if 65 ≤ c && c ≤ 90 then c + 32 else c

/-- Upper case for the first byte if `upper`, and for every byte after a hyphen. -/
def fixCase (upper : Bool) : List UInt8 → List UInt8
  | [] => []
  | c :: cs =>
      let c := if upper then toUpper c else toLower c
      c :: fixCase (c = 45) cs

/-- The canonical form of a field name. -/
def canonicalKey (key : List UInt8) : List UInt8 :=
  if key.all isTokenByte then fixCase true key else key

/-- The first value of the field, empty if there is none. -/
def get (h : Header) (key : List UInt8) : List UInt8 :=
  match h.lookup (canonicalKey key) with
  | some (v :: _) => v
  | _ => []

def set (h : Header) (key value : List UInt8) : Header := h.insert (canonicalKey key) [value]

/-! ## Canonical keys -/

theorem toUpper_toUpper (c : UInt8) : toUpper (toUpper c) = toUpper c := by
  unfold toUpper
  split <;> grind

theorem toLower_toLower (c : UInt8) : toLower (toLower c) = toLower c := by
  unfold toLower
  split <;> grind

/-- A letter is a token byte in either case. -/
theorem isTokenByte_toUpper (c : UInt8) : isTokenByte (toUpper c) = isTokenByte c := by
  unfold toUpper isTokenByte
  split <;> grind

theorem isTokenByte_toLower (c : UInt8) : isTokenByte (toLower c) = isTokenByte c := by
  unfold toLower isTokenByte
  split <;> grind

theorem fixCase_fixCase (upper : Bool) (key : List UInt8) :
    fixCase upper (fixCase upper key) = fixCase upper key := by
  induction key generalizing upper with
  | nil => rfl
  | cons c cs ih =>
      cases upper with
      | true => simp [fixCase, toUpper_toUpper, ih]
      | false => simp [fixCase, toLower_toLower, ih]

theorem all_isTokenByte_fixCase (upper : Bool) (key : List UInt8) :
    (fixCase upper key).all isTokenByte = key.all isTokenByte := by
  induction key generalizing upper with
  | nil => rfl
  | cons c cs ih =>
      cases upper with
      | true => simp only [fixCase, List.all_cons, ih, if_true, isTokenByte_toUpper]
      | false => simp [fixCase, ih, isTokenByte_toLower]

@[simp] theorem canonicalKey_canonicalKey (key : List UInt8) :
    canonicalKey (canonicalKey key) = canonicalKey key := by
  unfold canonicalKey
  by_cases h : key.all isTokenByte = true
  · simp only [h, if_true, all_isTokenByte_fixCase, fixCase_fixCase]
  · simp only [h, if_false, Bool.false_eq_true]

/-! ## Reading and writing -/

theorem get_of_lookup {h : Header} {key : List UInt8} {values : List (List UInt8)}
    (hl : h.lookup (canonicalKey key) = some values) : h.get key = values.head?.getD [] := by
  unfold get
  rw [hl]
  cases values with
  | nil => rfl
  | cons v vs => rfl

theorem lookup_set_of_ne (h : Header) {key key' : List UInt8} (value : List UInt8)
    (hne : key' ≠ canonicalKey key) : (h.set key value).lookup key' = h.lookup key' :=
  AList.lookup_insert_ne hne

theorem lookup_set_self (h : Header) (key value : List UInt8) :
    (h.set key value).lookup (canonicalKey key) = some [value] :=
  AList.lookup_insert h

@[simp] theorem get_set_self (h : Header) (key value : List UInt8) : (h.set key value).get key = value := by
  rw [get_of_lookup (lookup_set_self h key value)]
  rfl

/-- Set field after field. -/
def setAll (h : Header) (fields : List (List UInt8 × List UInt8)) : Header :=
  fields.foldl (fun h e => h.set e.1 e.2) h

/-- A key that is no field's canonical form stays as it was. -/
theorem lookup_setAll_of_forall_ne (h : Header) {fields : List (List UInt8 × List UInt8)}
    {key : List UInt8} (hne : ∀ e ∈ fields, canonicalKey e.1 ≠ key) :
    (h.setAll fields).lookup key = h.lookup key := by
  induction fields generalizing h with
  | nil => rfl
  | cons e es ih =>
      show ((h.set e.1 e.2).setAll es).lookup key = _
      rw [ih _ (fun e' he' => hne e' (List.mem_cons_of_mem _ he'))]
      exact lookup_set_of_ne h e.2 (hne e List.mem_cons_self).symm

/-- Whatever the order, the fields of a key leave one of their values. -/
theorem lookup_setAll_of_mem (h : Header) {fields : List (List UInt8 × List UInt8)} {key : List UInt8}
    (hmem : ∃ e ∈ fields, canonicalKey e.1 = key) :
    ∃ e ∈ fields, canonicalKey e.1 = key ∧ (h.setAll fields).lookup key = some [e.2] := by
  induction fields generalizing h with
  | nil => exact absurd hmem (by simp)
  | cons e es ih =>
      by_cases hes : ∃ e' ∈ es, canonicalKey e'.1 = key
      · -- a later field overwrites this one
        obtain ⟨e', he', hkey, hl⟩ := ih (h.set e.1 e.2) hes
        exact ⟨e', List.mem_cons_of_mem _ he', hkey, hl⟩
      · have hne : ∀ e' ∈ es, canonicalKey e'.1 ≠ key := fun e' he' heq => hes ⟨e', he', heq⟩
        obtain ⟨e', he', hkey⟩ := hmem
        obtain rfl : e' = e := (List.mem_cons.mp he').resolve_right (fun hin => hne e' hin hkey)
        refine ⟨e', List.mem_cons_self, hkey, ?_⟩
        show ((h.set e'.1 e'.2).setAll es).lookup key = _
        rw [lookup_setAll_of_forall_ne _ hne, ← hkey]
        exact lookup_set_self h e'.1 e'.2

end Header

end Lib
end ServiceKit
