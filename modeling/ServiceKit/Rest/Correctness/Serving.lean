import ServiceKit.Rest.Router
import ServiceKit.Search.Correctness.Routing

/-!
# `Rest.Correctness.Serving` — which handler serves a request

After any calls of `Handle` a request is served by the handler of the preferred matching pattern of its method; if its
method has none, it is refused with the other methods that have one, each once, or else as not found (`serve_routes`).
-/

namespace ServiceKit
namespace Rest

open Lib Search

variable {η : Type}

/-- A call of `Handle`: method, path and handler. -/
abbrev Route (η : Type) := Text × Text × Option η

/-- The router after some calls of `Handle`. -/
def PatRouter.after (routes : List (Route η)) : PatRouter η :=
  routes.foldl (fun pr r => (pr.handle r.1 r.2.1 r.2.2).1) .newRouter

/-- The call goes to the tree of this method. -/
def GoesTo (method : Text) (r : Route η) : Prop := r.1 = method ∧ validMethod r.1 = true ∧ r.2.1.head? = some '/'

instance (method : Text) (r : Route η) : Decidable (GoesTo method r) := inferInstanceAs (Decidable (_ ∧ _))

/-- What is added to the tree of a method. -/
def addsOf (routes : List (Route η)) (method : Text) : List (Text × Option η) :=
  (routes.filter fun r => GoesTo method r).map fun r => (clean r.2.1, r.2.2)

/-- The table of a method. -/
def tableOf (routes : List (Route η)) (method : Text) : List Text → Option η := table (addsOf routes method)

theorem addsOf_concat (routes : List (Route η)) (r : Route η) (method : Text) :
    addsOf (routes ++ [r]) method =
      if GoesTo method r then addsOf routes method ++ [(clean r.2.1, r.2.2)] else addsOf routes method := by
  rw [addsOf, List.filter_append, List.map_append, ← addsOf]
  by_cases hr : GoesTo method r
  · rw [if_pos hr, List.filter_cons_of_pos (by simpa using hr)]
    rfl
  · rw [if_neg hr, List.filter_cons_of_neg (by simpa using hr)]
    exact List.append_nil _

/-- The tree of a method is there from its first route on. -/
theorem lookup_after (routes : List (Route η)) (method : Text) :
    (PatRouter.after routes).trees.lookup method =
      if addsOf routes method = [] then none else some (Search.Tree.after (addsOf routes method)) := by
  induction routes using List.reverseRecOn generalizing method with
  | nil => exact AList.lookup_empty method
  | append_singleton routes r ih =>
      obtain ⟨m, path, handler⟩ := r
      rw [PatRouter.after, List.foldl_append, List.foldl_cons, List.foldl_nil, ← PatRouter.after, addsOf_concat]
      show ((PatRouter.after routes).handle m path handler).1.trees.lookup method = _
      rw [PatRouter.handle]
      by_cases hvalid : validMethod m = false
      · have hnot : ¬ GoesTo method (m, path, handler) := fun h => Bool.false_ne_true (hvalid.symm.trans h.2.1)
        rw [if_pos hvalid, if_neg hnot, ih]
      · rw [if_neg hvalid]
        by_cases hpath : path.head? = some '/'
        · rw [if_neg (not_not.mpr hpath)]
          by_cases hm : m = method
          · subst hm
            have hgoes : GoesTo m (m, path, handler) := ⟨rfl, by simpa using hvalid, hpath⟩
            rw [if_pos hgoes, if_neg (List.append_ne_nil_of_right_ne_nil _ (by simp))]
            show ((PatRouter.after routes).trees.insert m _).lookup m = _
            have hsnoc : Tree.after (addsOf routes m ++ [(clean path, handler)]) =
                ((Search.Tree.after (addsOf routes m)).add (clean path) handler).1 := List.foldl_concat _ _ _ _
            rw [AList.lookup_insert, ih, hsnoc]
            by_cases hnil : addsOf routes m = []
            · rw [if_pos hnil, hnil]
              rfl
            · rw [if_neg hnil]
              rfl
          · have hnot : ¬ GoesTo method (m, path, handler) := fun h => hm h.1
            rw [if_neg hnot]
            show ((PatRouter.after routes).trees.insert m _).lookup method = _
            rw [AList.lookup_insert_ne (Ne.symm hm), ih]
        · have hnot : ¬ GoesTo method (m, path, handler) := fun h => hpath h.2.2
          rw [if_pos hpath, if_neg hnot, ih]

theorem head_clean (p : Text) : clean (slash :: p) = slash :: (clean (slash :: p)).tail := by
  rw [show clean (slash :: p) = FilePath.absText ((p.splitOn '/').foldl FilePath.descend []) from rfl, FilePath.absText]
  rfl

/-- What the tree of a method finds. -/
theorem bind_search_finds (visit : VisitOrder η) (routes : List (Route η)) (method p : Text) :
    Finds (tableOf routes method) (fun ks => Matches ks ((clean (slash :: p)).tail.splitOn slash))
      (fun ks => binding ks ((clean (slash :: p)).tail.splitOn slash))
      (((PatRouter.after routes).trees.lookup method).bind fun tree => tree.search visit (clean (slash :: p))) := by
  rw [lookup_after, tableOf]
  by_cases hnil : addsOf routes method = []
  · rw [if_pos hnil, hnil]
    exact fun _ _ => rfl
  · rw [if_neg hnil, Option.bind_some, head_clean]
    exact search_finds visit (addsOf routes method) _

theorem finds_isSome_iff {α : Type} {T : List Text → Option α} {M : List Text → Prop}
    {bind : List Text → GoMap Text Text} {o : Option (Result α)} (h : Finds T M bind o) :
    o.isSome ↔ ∃ ks, M ks ∧ T ks ≠ none := by
  cases o with
  | none => exact ⟨fun h => absurd h Bool.false_ne_true, fun ⟨ks, hm, hne⟩ => absurd (h ks hm) hne⟩
  | some r =>
      obtain ⟨ks, hget, hm, -⟩ := h
      exact ⟨fun _ => ⟨ks, hm, by rw [hget]; exact Option.some_ne_none _⟩, fun _ => rfl⟩

theorem mem_methodsAllowed (visit : VisitOrder η) (order : RangeOrder Text) (routes : List (Route η))
    (method m p : Text) :
    m ∈ (PatRouter.after routes).methodsAllowed visit order method (clean (slash :: p)) ↔
      m ≠ method ∧ ∃ ks, Matches ks ((clean (slash :: p)).tail.splitOn slash) ∧ tableOf routes m ks ≠ none := by
  rw [← finds_isSome_iff (bind_search_finds visit routes m p), PatRouter.methodsAllowed, List.mem_filterMap]
  constructor
  · rintro ⟨⟨m', tree⟩, hmem, hm⟩
    split at hm
    · cases hm
    · next hne =>
        split at hm
        · next hfound =>
            obtain rfl := Option.some.inj hm
            rw [AList.mem_lookup_iff.mpr (order.mem_range.mp hmem)]
            exact ⟨hne, hfound⟩
        · cases hm
  · rintro ⟨hne, hfound⟩
    cases htree : (PatRouter.after routes).trees.lookup m with
    | none =>
        rw [htree] at hfound
        cases hfound
    | some tree =>
        rw [htree] at hfound
        refine ⟨⟨m, tree⟩, order.mem_range.mpr (AList.mem_lookup_iff.mp htree), ?_⟩
        rw [if_neg hne]
        exact if_pos hfound

theorem nodup_methodsAllowed (visit : VisitOrder η) (order : RangeOrder Text) (pr : PatRouter η) (method path : Text) :
    (pr.methodsAllowed visit order method path).Nodup := by
  rw [PatRouter.methodsAllowed]
  have hkeys : (order.range pr.trees).Pairwise fun e e' => e.1 ≠ e'.1 := List.pairwise_map.mp (order.nodup_keys pr.trees)
  have hkey : ∀ e : Entry Text (Search.Tree η), ∀ m, (if e.1 = method then none
      else if (e.2.search visit path).isSome then some e.1 else none) = some m → m = e.1 := by
    intro e m hm
    split at hm
    · cases hm
    · split at hm
      · exact (Option.some.inj hm).symm
      · cases hm
  refine List.pairwise_filterMap.mpr (hkeys.imp fun hne m hm m' hm' heq => hne ?_)
  rw [← hkey _ m hm, ← hkey _ m' hm', heq]

theorem handle_handlers (pr : PatRouter η) (method path : Text) (handler : Option η) :
    (pr.handle method path handler).1.notFound = pr.notFound ∧
      (pr.handle method path handler).1.notAllowed = pr.notAllowed := by
  unfold PatRouter.handle
  split
  · exact ⟨rfl, rfl⟩
  · split
    · exact ⟨rfl, rfl⟩
    · exact ⟨rfl, rfl⟩

/-- `Handle` sets no handler for what is not found, or not allowed. -/
theorem after_handlers (routes : List (Route η)) :
    (PatRouter.after routes).notFound = none ∧ (PatRouter.after routes).notAllowed = none := by
  induction routes using List.reverseRecOn with
  | nil => exact ⟨rfl, rfl⟩
  | append_singleton routes r ih =>
      obtain ⟨hfound, hallowed⟩ := handle_handlers (PatRouter.after routes) r.1 r.2.1 r.2.2
      rw [PatRouter.after, List.foldl_concat]
      exact ⟨hfound.trans ih.1, hallowed.trans ih.2⟩

/-- What a response says about the tables of the methods, where no other handler was set: status 405 and 404. -/
def Served.Justified (T : Text → List Text → Option η) (method : Text) (segs : List Text) : Served η → Prop
  | .item h params => Finds (T method) (fun ks => Matches ks segs) (fun ks => binding ks segs) (some ⟨h, params⟩)
  | .notAllowed h allows =>
      h = none ∧ (∀ ks, Matches ks segs → T method ks = none) ∧
        ∃ ms, allows = allowMethodSeparator.intercalate ms ∧ ms ≠ [] ∧ ms.Nodup ∧
          ∀ m, m ∈ ms ↔ m ≠ method ∧ ∃ ks, Matches ks segs ∧ T m ks ≠ none
  | .notFound h => h = none ∧ ∀ m ks, Matches ks segs → T m ks = none

/-- **Which handler serves.** After any calls of `Handle`, for any order of the maps: a request of a path that begins
    with a slash, as those of HTTP do, is served by the handler of the preferred pattern of its method that matches
    its cleaned path; it is answered with 405 where only other methods have a matching pattern, and these are named,
    each once; and it is not found where no method has one. -/
theorem serve_routes (visit : VisitOrder η) (order : RangeOrder Text) (routes : List (Route η)) (method p : Text) :
    ((PatRouter.after routes).serveHTTP visit order method (slash :: p)).Justified (tableOf routes) method
      ((clean (slash :: p)).tail.splitOn slash) := by
  have hfinds := bind_search_finds visit routes method p
  rw [PatRouter.serveHTTP]
  cases hsearch : ((PatRouter.after routes).trees.lookup method).bind fun tree =>
      tree.search visit (clean (slash :: p)) with
  | some result =>
      rw [hsearch] at hfinds
      exact hfinds
  | none =>
      rw [hsearch] at hfinds
      simp only
      have hmem := fun m => mem_methodsAllowed visit order routes method m p
      split
      · next hpos =>
          exact ⟨(after_handlers routes).2, hfinds, _, rfl, List.length_pos_iff.mp hpos,
            nodup_methodsAllowed visit order _ method _, hmem⟩
      · next hzero =>
          have hnil := List.length_eq_zero_iff.mp (Nat.eq_zero_of_not_pos hzero)
          refine ⟨(after_handlers routes).1, ?_⟩
          intro m ks hm
          by_cases heq : m = method
          · rw [heq]
            exact hfinds ks hm
          · by_contra hne
            have hin := (hmem m).mpr ⟨heq, ks, hm, hne⟩
            rw [hnil] at hin
            cases hin

end Rest
end ServiceKit
