import ServiceKit.Search.Correctness.Table

/-!
# `Search.Correctness.Routing` — what a search finds

A search finds an item if and only if some pattern of the tree matches the route; of those that do it finds the one that
has, at the first token where two of them differ, the plain token (`search_spec`), in whatever order a range visits the
children. The parameters are what the named tokens stand for.
-/

namespace ServiceKit
namespace Search

open Lib

variable {α : Type} {nd v : Node α} {order : VisitOrder α} {item : α} {k k' seg : Text} {ks segs : List Text}

/-! ## Well-formed trees -/

/-- The children of a node are under tokens that are not empty, each in its map. -/
inductive Node.WF : Node α → Prop where
  | mk {item : Option α} {plain named : Children α} (hplain : plain.NodupKeys) (hnamed : named.NodupKeys)
      (plain_of_mem : ∀ kv ∈ plain, kv.1 ≠ [] ∧ ¬ IsNamed kv.1) (named_of_mem : ∀ kv ∈ named, IsNamed kv.1)
      (wf_plain : ∀ kv ∈ plain, WF kv.2) (wf_named : ∀ kv ∈ named, WF kv.2) : WF (.mk item plain named)

namespace Node

theorem wf_newNode (item : Option α) : (newNode item).WF :=
  .mk List.nodupKeys_nil List.nodupKeys_nil (fun _ h => absurd h List.not_mem_nil) (fun _ h => absurd h List.not_mem_nil)
    (fun _ h => absurd h List.not_mem_nil) fun _ h => absurd h List.not_mem_nil

theorem WF.setItem (h : nd.WF) (item : α) : (nd.setItem item).WF := by
  cases h with
  | mk h₁ h₂ h₃ h₄ h₅ h₆ => exact .mk h₁ h₂ h₃ h₄ h₅ h₆

theorem mem_kinsert {children : Children α} {kv : Sigma fun _ : Text => Node α} (h : kv ∈ children.kinsert k v) :
    kv = ⟨k, v⟩ ∨ kv ∈ children := by
  rw [List.kinsert_def] at h
  rcases List.mem_cons.mp h with rfl | h
  · exact .inl rfl
  · exact .inr ((List.kerase_sublist _ _).subset h)

theorem WF.setChild (h : nd.WF) (hk : k ≠ []) (hv : v.WF) : (nd.setChild k v).WF := by
  cases h with
  | mk h₁ h₂ h₃ h₄ h₅ h₆ =>
      by_cases hnamed : IsNamed k
      · rw [setChild_of_named v hnamed]
        refine .mk h₁ (List.kinsert_nodupKeys _ _ h₂) h₃ (fun kv hkv => ?_) h₅ fun kv hkv => ?_
        · rcases mem_kinsert hkv with rfl | hkv
          · exact hnamed
          · exact h₄ kv hkv
        · rcases mem_kinsert hkv with rfl | hkv
          · exact hv
          · exact h₆ kv hkv
      · rw [setChild_of_plain v hnamed]
        refine .mk (List.kinsert_nodupKeys _ _ h₁) h₂ (fun kv hkv => ?_) h₄ (fun kv hkv => ?_) h₆
        · rcases mem_kinsert hkv with rfl | hkv
          · exact ⟨hk, hnamed⟩
          · exact h₃ kv hkv
        · rcases mem_kinsert hkv with rfl | hkv
          · exact hv
          · exact h₅ kv hkv

theorem WF.child (h : nd.WF) (hv : (nd.getChildren k).dlookup k = some v) : v.WF := by
  cases h with
  | mk h₁ h₂ h₃ h₄ h₅ h₆ =>
      by_cases hnamed : IsNamed k
      · rw [getChildren_of_named hnamed] at hv
        exact h₆ _ (List.of_mem_dlookup hv)
      · rw [getChildren_of_plain hnamed] at hv
        exact h₅ _ (List.of_mem_dlookup hv)

theorem WF.add (h : nd.WF) (item : α) (segs : List Text) : (nd.add item segs).1.WF := by
  induction segs generalizing nd with
  | nil => exact h
  | cons token segs ih =>
      cases segs with
      | nil =>
          rw [Node.add]
          split
          · split
            · exact h
            · exact h.setItem item
          · next hempty =>
              have htoken : token ≠ [] := fun heq => hempty (by rw [heq]; rfl)
              split
              · next child hchild =>
                  split
                  · exact h
                  · exact h.setChild htoken ((h.child hchild).setItem item)
              · exact h.setChild htoken (wf_newNode _)
      | cons route rest =>
          rw [Node.add]
          split
          · exact h
          · next hempty =>
              have htoken : token ≠ [] := fun heq => hempty (by rw [heq]; rfl)
              split
              · next child hchild => exact h.setChild htoken (ih (h.child hchild))
              · exact h.setChild htoken (ih (wf_newNode _))

/-- The children that a range visits. -/
theorem WF.mem_children (h : nd.WF) :
    (⟨k, v⟩ ∈ nd.plain ↔ ¬ IsNamed k ∧ (nd.getChildren k).dlookup k = some v) ∧
      (⟨k, v⟩ ∈ nd.named ↔ IsNamed k ∧ (nd.getChildren k).dlookup k = some v) := by
  cases h with
  | mk h₁ h₂ h₃ h₄ h₅ h₆ =>
      constructor
      · constructor
        · intro hmem
          have hplain := (h₃ _ hmem).2
          rw [getChildren_of_plain hplain]
          exact ⟨hplain, (List.mem_dlookup_iff h₁).mpr hmem⟩
        · rintro ⟨hplain, hv⟩
          rw [getChildren_of_plain hplain] at hv
          exact List.of_mem_dlookup hv
      · constructor
        · intro hmem
          have hnamed := h₄ _ hmem
          rw [getChildren_of_named hnamed]
          exact ⟨hnamed, (List.mem_dlookup_iff h₂).mpr hmem⟩
        · rintro ⟨hnamed, hv⟩
          rw [getChildren_of_named hnamed] at hv
          exact List.of_mem_dlookup hv

/-! ## `forEach` -/

theorem forEach_some {β : Type} {fn : Text → Node α → Option β} {b : β} (h : nd.WF)
    (hb : nd.forEach order fn = some b) :
    ∃ k v, (nd.getChildren k).dlookup k = some v ∧ fn k v = some b ∧
      (IsNamed k → ∀ k' v', ¬ IsNamed k' → (nd.getChildren k').dlookup k' = some v' → fn k' v' = none) := by
  rw [forEach, List.findSome?_append, Option.or_eq_some_iff] at hb
  rcases hb with hb | ⟨hnone, hb⟩
  · obtain ⟨⟨k, v⟩, hmem, hfn⟩ := List.exists_of_findSome?_eq_some hb
    obtain ⟨hplain, hv⟩ := (h.mem_children.1).mp ((order.perm _).mem_iff.mp hmem)
    exact ⟨k, v, hv, hfn, fun hnamed => absurd hnamed hplain⟩
  · obtain ⟨⟨k, v⟩, hmem, hfn⟩ := List.exists_of_findSome?_eq_some hb
    obtain ⟨hnamed, hv⟩ := (h.mem_children.2).mp ((order.perm _).mem_iff.mp hmem)
    refine ⟨k, v, hv, hfn, fun _ k' v' hk' hv' => ?_⟩
    exact List.findSome?_eq_none_iff.mp hnone ⟨k', v'⟩ ((order.perm _).mem_iff.mpr (h.mem_children.1.mpr ⟨hk', hv'⟩))

theorem forEach_none {β : Type} {fn : Text → Node α → Option β} (h : nd.WF) (hnone : nd.forEach order fn = none)
    (hv : (nd.getChildren k).dlookup k = some v) : fn k v = none := by
  rw [forEach, List.findSome?_append, Option.or_eq_none_iff] at hnone
  by_cases hnamed : IsNamed k
  · exact List.findSome?_eq_none_iff.mp hnone.2 ⟨k, v⟩
      ((order.perm _).mem_iff.mpr (h.mem_children.2.mpr ⟨hnamed, hv⟩))
  · exact List.findSome?_eq_none_iff.mp hnone.1 ⟨k, v⟩
      ((order.perm _).mem_iff.mpr (h.mem_children.1.mpr ⟨hnamed, hv⟩))

end Node

/-! ## Patterns that match -/

/-- The token stands for this one. -/
def Fits (k seg : Text) : Prop := IsNamed k ∨ k = seg

/-- The pattern matches a route that is cut at its slashes. -/
inductive Matches : List Text → List Text → Prop where
  /-- a slash at the end of the route counts for nothing -/
  | slash : Matches [] [[]]
  | last {k seg : Text} (h : Fits k seg) : Matches [k] [seg]
  | cons {k seg s : Text} {ks segs : List Text} (h : Fits k seg) (hm : Matches ks (s :: segs)) :
      Matches (k :: ks) (seg :: s :: segs)

/-- What the named tokens stand for. Of two with one name the first counts. -/
def binding : List Text → List Text → GoMap Text Text
  | k :: ks, seg :: segs => if IsNamed k then (binding ks segs).insert k.tail seg else binding ks segs
  | _, _ => ∅

/-- The first pattern goes before the second: where they differ first, the second has a named token, or the first is at
    its end. -/
def Prefers : List Text → List Text → Prop
  | [], _ => True
  | _ :: _, [] => False
  | k :: ks, k' :: ks' => if k = k' then Prefers ks ks' else IsNamed k'

theorem matchToken_named (seg : Text) (h : IsNamed k) : matchToken k seg = ⟨k.tail, seg, true, true⟩ := if_pos h

theorem matchToken_plain (seg : Text) (h : ¬ IsNamed k) : matchToken k seg = ⟨[], [], false, k = seg⟩ := if_neg h

theorem matchToken_found : (matchToken k seg).found = true ↔ Fits k seg := by
  by_cases hk : IsNamed k
  · rw [matchToken_named seg hk]
    exact ⟨fun _ => .inl hk, fun _ => rfl⟩
  · rw [matchToken_plain seg hk]
    exact decide_eq_true_iff.trans (or_iff_right hk).symm

theorem item_addParam (r : InnerResult) (result : Result α) : (addParam r result).item = result.item := by
  rw [addParam]
  split <;> rfl

theorem params_addParam (k seg : Text) (result : Result α) :
    (addParam (matchToken k seg) result).params =
      if IsNamed k then result.params.insert k.tail seg else result.params := by
  by_cases hk : IsNamed k
  · rw [matchToken_named seg hk, if_pos hk, addParam, if_pos rfl]
  · rw [matchToken_plain seg hk, if_neg hk, addParam, if_neg Bool.false_ne_true]

/-- The result is the item of the preferred one of the patterns `M` in the table, or there is none. -/
def Finds (T : List Text → Option α) (M : List Text → Prop) (bind : List Text → GoMap Text Text) :
    Option (Result α) → Prop
  | some r => ∃ ks, T ks = some r.item ∧ M ks ∧ r.params = bind ks ∧ ∀ ks', T ks' ≠ none → M ks' → Prefers ks ks'
  | none => ∀ ks, M ks → T ks = none

/-- One token, and a search for the rest in each child that it fits. -/
theorem forEach_finds (order : VisitOrder α) (h : nd.WF) {M : List Text → Prop} {bind : List Text → GoMap Text Text}
    {g : Node α → Option (Result α)} (hg : ∀ k v, (nd.getChildren k).dlookup k = some v → Finds v.get M bind (g v))
    (seg : Text) :
    Finds nd.get (fun ks => ∃ k ks', ks = k :: ks' ∧ Fits k seg ∧ M ks')
      (fun ks => if IsNamed (ks.headD []) then (bind ks.tail).insert (ks.headD []).tail seg else bind ks.tail)
      (nd.forEach order fun k v =>
        if (matchToken k seg).found then (g v).map (addParam (matchToken k seg)) else none) := by
  have hmiss : ∀ {k v}, (nd.getChildren k).dlookup k = some v → Fits k seg →
      (if (matchToken k seg).found then (g v).map (addParam (matchToken k seg)) else none) = none →
      ∀ ks, M ks → nd.get (k :: ks) = none := by
    intro k v hv hfits hnone ks hm
    rw [if_pos (matchToken_found.mpr hfits), Option.map_eq_none_iff] at hnone
    have hfinds := hg k v hv
    rw [hnone] at hfinds
    rw [Node.get_cons, hv, Option.bind_some]
    exact hfinds ks hm
  cases hres : nd.forEach order fun k v =>
      if (matchToken k seg).found then (g v).map (addParam (matchToken k seg)) else none with
  | none =>
      rintro ks ⟨k, ks', rfl, hfits, hm⟩
      cases hv : (nd.getChildren k).dlookup k with
      | none => rw [Node.get_cons, hv, Option.bind_none]
      | some v => exact hmiss hv hfits (Node.forEach_none h hres hv) ks' hm
  | some r =>
      obtain ⟨k, v, hv, hfn, hplain⟩ := Node.forEach_some h hres
      by_cases hfits : Fits k seg
      · rw [if_pos (matchToken_found.mpr hfits)] at hfn
        obtain ⟨r', hr', rfl⟩ := Option.map_eq_some_iff.mp hfn
        have hfinds := hg k v hv
        rw [hr'] at hfinds
        obtain ⟨ks, hget, hm, hparams, hprefers⟩ := hfinds
        refine ⟨k :: ks, ?_, ⟨k, ks, rfl, hfits, hm⟩, ?_, ?_⟩
        · rw [Node.get_cons, hv, Option.bind_some, hget, item_addParam]
        · rw [params_addParam, hparams]
          rfl
        · rintro ks' hne ⟨k', ks', rfl, hfits', hm'⟩
          rw [Prefers]
          split
          · next heq =>
              refine hprefers ks' (fun hnone => hne ?_) hm'
              rw [← heq, Node.get_cons, hv, Option.bind_some, hnone]
          · next heq =>
              -- another plain token that fits: its child was searched before
              by_contra hk'
              have hseg : k' = seg := hfits'.resolve_left hk'
              have hk : IsNamed k := hfits.resolve_right fun hkseg => heq (hkseg.trans hseg.symm)
              cases hv' : (nd.getChildren k').dlookup k' with
              | none => exact hne (by rw [Node.get_cons, hv', Option.bind_none])
              | some v' => exact hne (hmiss hv' hfits' (hplain hk k' v' hk' hv') ks' hm')
      · rw [if_neg fun hfound => hfits (matchToken_found.mp hfound)] at hfn
        cases hfn

theorem finds_congr {T : List Text → Option α} {M M' : List Text → Prop} {bind bind' : List Text → GoMap Text Text} {o : Option (Result α)}
    (hM : ∀ ks, M ks ↔ M' ks) (hbind : ∀ ks, M ks → bind ks = bind' ks) (h : Finds T M bind o) :
    Finds T M' bind' o := by
  cases o with
  | none => exact fun ks hm => h ks ((hM ks).mpr hm)
  | some r =>
      obtain ⟨ks, hget, hm, hparams, hprefers⟩ := h
      exact ⟨ks, hget, (hM ks).mp hm, hparams.trans (hbind ks hm), fun ks' hne hm' => hprefers ks' hne ((hM ks').mpr hm')⟩

/-- **The search in a node.** -/
theorem next_finds (h : nd.WF) (order : VisitOrder α) (segs : List Text) :
    Finds nd.get (fun ks => Matches ks segs) (fun ks => binding ks segs) (nd.next order segs) := by
  induction segs generalizing nd with
  | nil => exact fun ks hm => by cases hm
  | cons token segs ih =>
      cases segs with
      | cons route rest =>
          rw [Node.next]
          refine finds_congr (fun ks => ?_) (fun ks hm => ?_)
            (forEach_finds order h (g := fun v => v.next order (route :: rest)) (fun k v hv => ih (h.child hv)) token)
          · constructor
            · rintro ⟨k, ks', rfl, hfits, hm⟩
              exact .cons hfits hm
            · intro hm
              cases hm with
              | cons hfits hm => exact ⟨_, _, rfl, hfits, hm⟩
          · obtain ⟨k, ks', rfl, hfits, hm⟩ := hm
            rfl
      | nil =>
          rw [Node.next]
          -- the children that have an item
          have hleaf : Finds nd.get (fun ks => ∃ k, ks = [k] ∧ Fits k token) (fun ks => binding ks [token])
              (nd.forEach order fun k v =>
                if (matchToken k token).found then v.item.map fun item => addParam (matchToken k token) ⟨item, ∅⟩
                else none) := by
            have hitem : ∀ v : Node α, Finds v.get (fun ks => ks = []) (fun _ => ∅) (v.item.map fun item => ⟨item, ∅⟩) := by
              intro v
              cases hv : v.item with
              | none => rintro ks rfl; exact hv
              | some item =>
                  refine ⟨[], hv, rfl, rfl, ?_⟩
                  rintro ks' - rfl
                  exact trivial
            have hchild := forEach_finds order h (fun k v _ => hitem v) token
            simp only [Option.map_map] at hchild
            refine finds_congr (fun ks => ?_) (fun ks hm => ?_) hchild
            · constructor
              · rintro ⟨k, ks', rfl, hfits, rfl⟩
                exact ⟨k, rfl, hfits⟩
              · rintro ⟨k, rfl, hfits⟩
                exact ⟨k, [], rfl, hfits, rfl⟩
            · obtain ⟨k, ks', rfl, hfits, rfl⟩ := hm
              rfl
          have hmatches : ∀ ks, Matches ks [token] ↔ (ks = [] ∧ token = []) ∨ ∃ k, ks = [k] ∧ Fits k token := by
            intro ks
            constructor
            · intro hm
              cases hm with
              | slash => exact .inl ⟨rfl, rfl⟩
              | last hfits => exact .inr ⟨_, rfl, hfits⟩
            · rintro (⟨rfl, rfl⟩ | ⟨k, rfl, hfits⟩)
              · exact .slash
              · exact .last hfits
          by_cases hempty : token.length = 0
          · have htoken : token = [] := List.length_eq_zero_iff.mp hempty
            rw [if_pos hempty]
            cases hitem : nd.item with
            | some item =>
                refine ⟨[], hitem, (hmatches []).mpr (.inl ⟨rfl, htoken⟩), rfl, fun ks' _ _ => ?_⟩
                exact trivial
            | none =>
                simp only
                cases hres : nd.forEach order fun k v =>
                    if (matchToken k token).found then v.item.map fun item => addParam (matchToken k token) ⟨item, ∅⟩
                    else none with
                | none =>
                    rw [hres] at hleaf
                    intro ks hm
                    rcases (hmatches ks).mp hm with ⟨rfl, -⟩ | hm
                    · exact hitem
                    · exact hleaf ks hm
                | some r =>
                    rw [hres] at hleaf
                    obtain ⟨ks, hget, hm, hparams, hprefers⟩ := hleaf
                    refine ⟨ks, hget, (hmatches ks).mpr (.inr hm), hparams, fun ks' hne hm' => ?_⟩
                    rcases (hmatches ks').mp hm' with ⟨rfl, -⟩ | hm'
                    · exact absurd hitem hne
                    · exact hprefers ks' hne hm'
          · rw [if_neg hempty]
            have htoken : token ≠ [] := fun heq => hempty (by rw [heq]; rfl)
            refine finds_congr (fun ks => ?_) (fun _ _ => rfl) hleaf
            rw [hmatches]
            exact (or_iff_right fun hc => htoken hc.2).symm

/-! ## Trees -/

/-- The tree after some calls of `Add`. -/
def Tree.after (adds : List (Text × Option α)) : Tree α := adds.foldl (fun t a => (t.add a.1 a.2).1) .newTree

/-- The error of `Add` for what is in the table. -/
def refusal (T : List Text → Option α) : Text → Option α → Option TreeError
  | [], _ => some .errNotFromRoot
  | c :: rest, item =>
      if c ≠ slash then some .errNotFromRoot
      else if item.isNone then some .errEmptyItem
      else if DupSlash (rest.splitOn slash) then some (.duplicatedSlash (c :: rest))
      else if (T (pattern (rest.splitOn slash))).isSome then some (.duplicatedItem (c :: rest))
      else none

/-- The table after `Add`: the new item under the pattern of its route, if there is no error. -/
def enter (T : List Text → Option α) (a : Text × Option α) : List Text → Option α :=
  if refusal T a.1 a.2 = none then Function.update T (pattern (a.1.tail.splitOn slash)) a.2 else T

/-- The table after some calls of `Add`. -/
def table (adds : List (Text × Option α)) : List Text → Option α := adds.foldl enter fun _ => none

theorem splitOn_ne_nil (route : Text) : route.splitOn slash ≠ [] := List.splitOn_ne_nil _ _

/-- One call of `Add`. -/
theorem add_table {t : Tree α} {T : List Text → Option α} (h : t.root.get = T) (route : Text) (item : Option α) :
    (t.add route item).2 = refusal T route item ∧ (t.add route item).1.root.get = enter T (route, item) := by
  cases route with
  | nil => exact ⟨rfl, h⟩
  | cons c rest =>
      rw [enter, refusal]
      by_cases hc : c = slash
      · rw [if_neg (not_not.mpr hc)]
        cases item with
        | none =>
            rw [Tree.add, if_neg (not_not.mpr hc)]
            exact ⟨rfl, h⟩
        | some item =>
            have hspec := add_spec item t.root (splitOn_ne_nil rest)
            rw [Tree.add, if_neg (not_not.mpr hc), if_neg (by simp)]
            simp only [List.tail_cons]
            generalize t.root.add item (rest.splitOn slash) = r at hspec
            subst h
            obtain ⟨root, err⟩ := r
            cases err with
            | none =>
                have hdup : ¬ DupSlash (rest.splitOn slash) := fun hd => by
                  have herr := hspec.dupSlash.mpr hd
                  cases herr
                have hnone : t.root.get (pattern (rest.splitOn slash)) = none := by
                  by_contra hne
                  have herr := hspec.dupItem.mpr ⟨hdup, hne⟩
                  cases herr
                rw [if_neg hdup, if_neg (by rw [hnone]; simp), if_pos rfl]
                refine ⟨rfl, funext fun ks => ?_⟩
                rw [hspec.added rfl, Function.update_apply]
            | some e =>
                cases e with
                | errDupSlash =>
                    rw [if_pos (hspec.dupSlash.mp rfl), if_neg (Option.some_ne_none _)]
                    exact ⟨rfl, funext fun ks => hspec.failed (Option.some_ne_none _) ks⟩
                | errDupItem =>
                    obtain ⟨hdup, hne⟩ := hspec.dupItem.mp rfl
                    rw [if_neg hdup, if_pos (Option.isSome_iff_ne_none.mpr hne), if_neg (Option.some_ne_none _)]
                    exact ⟨rfl, funext fun ks => hspec.failed (Option.some_ne_none _) ks⟩
      · rw [if_pos hc, if_neg (Option.some_ne_none _)]
        cases item with
        | none =>
            rw [Tree.add, if_pos hc]
            exact ⟨rfl, h⟩
        | some item =>
            rw [Tree.add, if_pos hc]
            exact ⟨rfl, h⟩

theorem get_newTree : (Tree.newTree : Tree α).root.get = fun _ => none := by
  funext ks
  cases ks with
  | nil => rfl
  | cons k ks => exact Node.get_newNode none k ks

theorem get_after (adds : List (Text × Option α)) : (Tree.after adds).root.get = table adds := by
  induction adds using List.reverseRecOn with
  | nil => exact get_newTree
  | append_singleton adds a ih =>
      rw [Tree.after, table, List.foldl_append, List.foldl_append, ← Tree.after, ← table]
      exact (add_table ih a.1 a.2).2

/-- **A tree is a table.** After any calls of `Add` the next call gives exactly the error that the accepted routes call
    for, and a call with an error changes nothing. -/
theorem add_after (adds : List (Text × Option α)) (route : Text) (item : Option α) :
    ((Tree.after adds).add route item).2 = refusal (table adds) route item ∧
      ((Tree.after adds).add route item).1.root.get = enter (table adds) (route, item) :=
  add_table (get_after adds) route item

theorem wf_add {t : Tree α} (h : t.root.WF) (route : Text) (item : Option α) : (t.add route item).1.root.WF := by
  cases route with
  | nil => exact h
  | cons c rest =>
      cases item with
      | none =>
          rw [Tree.add]
          split <;> exact h
      | some item =>
          rw [Tree.add]
          split
          · exact h
          · exact h.add item _

theorem wf_after (adds : List (Text × Option α)) : (Tree.after adds).root.WF := by
  induction adds using List.reverseRecOn with
  | nil => exact Node.wf_newNode none
  | append_singleton adds a ih =>
      rw [Tree.after, List.foldl_append, ← Tree.after]
      exact wf_add ih a.1 a.2

/-- **What a search finds**: the item of a matching pattern that no other one is preferred to, with what its named tokens
    stand for; nothing only where no pattern matches. -/
theorem search_finds (order : VisitOrder α) (adds : List (Text × Option α)) (rest : Text) :
    Finds (table adds) (fun ks => Matches ks (rest.splitOn slash)) (fun ks => binding ks (rest.splitOn slash))
      ((Tree.after adds).search order (slash :: rest)) := by
  rw [Tree.search, if_neg (not_not.mpr rfl), ← get_after]
  exact next_finds (wf_after adds) order _

/-- A route that does not begin with a slash finds nothing. -/
theorem search_not_rooted (order : VisitOrder α) (t : Tree α) {route : Text} (h : route.head? ≠ some slash) :
    t.search order route = none := by
  cases route with
  | nil => rfl
  | cons c rest => exact if_pos fun heq => h (congrArg some heq)

end Search
end ServiceKit
