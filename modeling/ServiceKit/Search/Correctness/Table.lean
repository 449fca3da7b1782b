import ServiceKit.Search.Tree

/-!
# `Search.Correctness.Table` — the tree as a table of patterns

A pattern is the list of tokens of a route. `Node.get` walks down a pattern, so a tree is a partial map from patterns to
items; `add` puts one item into this map or, with an error, leaves it as it is (`add_spec`).
-/

namespace ServiceKit
namespace Search

open Lib

variable {α : Type} {nd : Node α} {k k' : Text} {ks : List Text}

/-- The token stands for any token. -/
def IsNamed (k : Text) : Prop := k.head? = some colon

instance (k : Text) : Decidable (IsNamed k) := inferInstanceAs (Decidable (_ = _))

namespace Node

/-- The item of a pattern. -/
def get : Node α → List Text → Option α
  | nd, [] => nd.item
  | nd, k :: ks => ((nd.getChildren k).dlookup k).bind fun v => get v ks

@[simp] theorem get_nil : nd.get [] = nd.item := rfl

theorem get_cons : nd.get (k :: ks) = ((nd.getChildren k).dlookup k).bind fun v => v.get ks := rfl

@[simp] theorem get_newNode (item : Option α) (k : Text) (ks : List Text) : (newNode item).get (k :: ks) = none := by
  rw [get_cons, getChildren]
  split <;> rfl

@[simp] theorem item_newNode (item : Option α) : (newNode item).item = item := rfl

@[simp] theorem item_setItem (nd : Node α) (item : α) : (nd.setItem item).item = some item := rfl

theorem get_setItem (nd : Node α) (item : α) : (nd.setItem item).get (k :: ks) = nd.get (k :: ks) := rfl

@[simp] theorem item_setChild (nd : Node α) (k : Text) (v : Node α) : (nd.setChild k v).item = nd.item := by
  rw [setChild]
  split <;> rfl

theorem getChildren_of_named (h : IsNamed k) : nd.getChildren k = nd.named := if_pos h

theorem getChildren_of_plain (h : ¬ IsNamed k) : nd.getChildren k = nd.plain := if_neg h

theorem setChild_of_named (v : Node α) (h : IsNamed k) : nd.setChild k v = mk nd.item nd.plain (nd.named.kinsert k v) :=
  if_pos h

theorem setChild_of_plain (v : Node α) (h : ¬ IsNamed k) :
    nd.setChild k v = mk nd.item (nd.plain.kinsert k v) nd.named := if_neg h

theorem dlookup_setChild_self (nd : Node α) (k : Text) (v : Node α) :
    ((nd.setChild k v).getChildren k).dlookup k = some v := by
  by_cases hk : IsNamed k
  · rw [getChildren_of_named hk, setChild_of_named v hk]
    exact List.dlookup_kinsert _
  · rw [getChildren_of_plain hk, setChild_of_plain v hk]
    exact List.dlookup_kinsert _

theorem dlookup_setChild_ne (nd : Node α) (v : Node α) (hne : k' ≠ k) :
    ((nd.setChild k v).getChildren k').dlookup k' = (nd.getChildren k').dlookup k' := by
  by_cases hk : IsNamed k <;> by_cases hk' : IsNamed k'
  · rw [getChildren_of_named hk', getChildren_of_named hk', setChild_of_named v hk]
    exact List.dlookup_kinsert_ne hne
  · rw [getChildren_of_plain hk', getChildren_of_plain hk', setChild_of_named v hk]
    rfl
  · rw [getChildren_of_named hk', getChildren_of_named hk', setChild_of_plain v hk]
    rfl
  · rw [getChildren_of_plain hk', getChildren_of_plain hk', setChild_of_plain v hk]
    exact List.dlookup_kinsert_ne hne

/-- What a new child changes: the patterns that begin with its token. -/
theorem get_setChild (nd : Node α) (k : Text) (v : Node α) (ks' : List Text) :
    (nd.setChild k v).get ks' = if ks'.head? = some k then v.get ks'.tail else nd.get ks' := by
  cases ks' with
  | nil => rw [get_nil, item_setChild, if_neg (by simp), get_nil]
  | cons k' ks =>
      rw [get_cons, List.head?_cons, List.tail_cons]
      by_cases heq : k' = k
      · rw [heq, dlookup_setChild_self, if_pos rfl, Option.bind_some]
      · rw [dlookup_setChild_ne nd v heq, if_neg fun h => heq (Option.some.inj h), get_cons]

end Node

/-! ## Adding -/

/-- The pattern of a route that is cut at its slashes: a slash at its end counts for nothing. -/
def pattern : List Text → List Text
  | [] => []
  | [route] => if route.length = 0 then [] else [route]
  | token :: route :: rest => token :: pattern (route :: rest)

/-- The route has two slashes in a row. -/
def DupSlash : List Text → Prop
  | [] => False
  | [_] => False
  | token :: route :: rest => token = [] ∨ DupSlash (route :: rest)

instance decidableDupSlash : DecidablePred DupSlash
  | [] => inferInstanceAs (Decidable False)
  | [_] => inferInstanceAs (Decidable False)
  | _ :: route :: rest => @instDecidableOr _ _ _ (decidableDupSlash (route :: rest))

/-- What `add` does: two slashes in a row and a pattern that is there are errors, which leave the items as they are. -/
structure AddSpec (item : α) (nd : Node α) (segs : List Text) (r : Node α × Option AddError) : Prop where
  dupSlash : r.2 = some .errDupSlash ↔ DupSlash segs
  dupItem : r.2 = some .errDupItem ↔ ¬ DupSlash segs ∧ nd.get (pattern segs) ≠ none
  added : r.2 = none → ∀ ks, r.1.get ks = if ks = pattern segs then some item else nd.get ks
  failed : r.2 ≠ none → ∀ ks, r.1.get ks = nd.get ks

/-- Down one token. -/
theorem AddSpec.descend {item : α} {child : Node α} {token route : Text} {rest : List Text} {r : Node α × Option AddError}
    (h : AddSpec item child (route :: rest) r) (htoken : token ≠ [])
    (hchild : ∀ ks, child.get ks = nd.get (token :: ks)) :
    AddSpec item nd (token :: route :: rest) (nd.setChild token r.1, r.2) where
  dupSlash := by
    rw [h.dupSlash, DupSlash]
    exact (or_iff_right htoken).symm
  dupItem := by
    rw [h.dupItem, DupSlash, pattern, hchild]
    exact and_congr_left fun _ => not_congr (or_iff_right htoken).symm
  added := by
    intro hnone ks
    rw [Node.get_setChild, pattern]
    cases ks with
    | nil => rw [if_neg (by simp), if_neg (by simp)]
    | cons k ks =>
        rw [List.head?_cons, List.tail_cons]
        by_cases hk : k = token
        · rw [if_pos (congrArg some hk), h.added hnone, hk, hchild]
          simp only [List.cons.injEq, true_and]
        · rw [if_neg fun heq => hk (Option.some.inj heq), if_neg fun heq => hk (List.head_eq_of_cons_eq heq)]
  failed := by
    intro hsome ks
    rw [Node.get_setChild]
    cases ks with
    | nil => rw [if_neg (by simp)]
    | cons k ks =>
        rw [List.head?_cons, List.tail_cons]
        by_cases hk : k = token
        · rw [if_pos (congrArg some hk), h.failed hsome, hk, hchild]
        · rw [if_neg fun heq => hk (Option.some.inj heq)]

/-- **Adding.** -/
theorem add_spec (item : α) (nd : Node α) {segs : List Text} (hsegs : segs ≠ []) :
    AddSpec item nd segs (nd.add item segs) := by
  induction segs generalizing nd with
  | nil => exact absurd rfl hsegs
  | cons token segs ih =>
      cases segs with
      | nil =>
          -- the end of the route
          rw [Node.add]
          by_cases hempty : token.length = 0
          · rw [if_pos hempty]
            have hpattern : pattern [token] = [] := if_pos hempty
            cases hitem : nd.item with
            | some old =>
                exact
                  { dupSlash := ⟨nofun, False.elim⟩
                    dupItem := by simp [DupSlash, hpattern, hitem]
                    added := nofun
                    failed := fun _ _ => rfl }
            | none =>
                refine
                  { dupSlash := ⟨nofun, False.elim⟩
                    dupItem := by simp [hpattern, hitem]
                    added := fun _ ks => ?_
                    failed := fun h => absurd rfl h }
                rw [hpattern]
                cases ks with
                | nil => rfl
                | cons k ks => rw [if_neg (List.cons_ne_nil k ks), Node.get_setItem]
          · rw [if_neg hempty]
            have hpattern : pattern [token] = [token] := if_neg hempty
            have hget : nd.get [token] = ((nd.getChildren token).dlookup token).bind Node.item := rfl
            -- the item of a child changes
            have hput : ∀ v : Node α, v.item = some item → (∀ k ks, v.get (k :: ks) = nd.get (token :: k :: ks)) →
                ∀ ks, (nd.setChild token v).get ks = if ks = pattern [token] then some item else nd.get ks := by
              intro v hitem hrest ks
              rw [Node.get_setChild, hpattern]
              cases ks with
              | nil => rw [if_neg (by simp), if_neg (by simp)]
              | cons k ks =>
                  rw [List.head?_cons, List.tail_cons]
                  by_cases hk : k = token
                  · rw [if_pos (congrArg some hk), hk]
                    cases ks with
                    | nil => rw [Node.get_nil, hitem, if_pos rfl]
                    | cons k' ks => rw [hrest, if_neg (by simp)]
                  · rw [if_neg fun heq => hk (Option.some.inj heq), if_neg fun heq => hk (List.head_eq_of_cons_eq heq)]
            cases hchild : (nd.getChildren token).dlookup token with
            | none =>
                rw [hchild] at hget
                refine
                  { dupSlash := ⟨nofun, False.elim⟩
                    dupItem := by simp [hpattern, hget]
                    added := fun _ => hput _ rfl fun k ks => ?_
                    failed := fun h => absurd rfl h }
                rw [Node.get_newNode, Node.get_cons, hchild, Option.bind_none]
            | some child =>
                rw [hchild] at hget
                cases hitem : child.item with
                | some old =>
                    exact
                      { dupSlash := ⟨by simp [hitem], False.elim⟩
                        dupItem := by simp [DupSlash, hpattern, hget, hitem]
                        added := by simp [hitem]
                        failed := by simp [hitem] }
                | none =>
                    simp only [hitem]
                    refine
                      { dupSlash := ⟨nofun, False.elim⟩
                        dupItem := by simp [hpattern, hget, hitem]
                        added := fun _ => hput _ rfl fun k ks => ?_
                        failed := fun h => absurd rfl h }
                    rw [Node.get_setItem, Node.get_cons (k := token), hchild, Option.bind_some]
      | cons route rest =>
          rw [Node.add]
          by_cases hempty : token.length = 0
          · rw [if_pos hempty]
            have hdup : DupSlash (token :: route :: rest) := .inl (List.length_eq_zero_iff.mp hempty)
            exact
              { dupSlash := ⟨fun _ => hdup, fun _ => rfl⟩
                dupItem := ⟨nofun, fun h => absurd hdup h.1⟩
                added := nofun
                failed := fun _ _ => rfl }
          · rw [if_neg hempty]
            have htoken : token ≠ [] := fun h => hempty (by rw [h]; rfl)
            cases hchild : (nd.getChildren token).dlookup token with
            | some child =>
                refine (ih child (List.cons_ne_nil _ _)).descend htoken fun ks => ?_
                rw [Node.get_cons, hchild, Option.bind_some]
            | none =>
                refine (ih (.newNode none) (List.cons_ne_nil _ _)).descend htoken fun ks => ?_
                rw [Node.get_cons, hchild, Option.bind_none]
                cases ks with
                | nil => rfl
                | cons k ks => rw [Node.get_newNode]

end Search
end ServiceKit
